import SensorRemote.AuditLog
import SensorRemote.Lib.Transition
import Mathlib.Logic.Function.Basic

/-!
# The history in an audit log

A device opens, extends and closes its logs, one handle to a log at a time (`open` takes a lock),
while somebody else may put any bytes in place of a log. What `verify` accepts under the key of
the device is a history the device has signed, record after record.

The signature scheme is taken to be unforgeable for the log presented, and the digest to tell
apart the records that the device or the log presented involves.
-/

namespace SensorRemote

open Transition Bytes

/-- What the proofs rely on in the code the log calls. -/
structure AuditCodec.Laws (codec : AuditCodec) : Prop where
  body_injective : ∀ {body body' json}, codec.bodyToVec body = some json →
    codec.bodyToVec body' = some json → body = body'
  record_roundTrip : ∀ {record json}, codec.recordToVec record = some json →
    codec.recordFromSlice (json ++ [newline]) = some record
  record_oneLine : ∀ {record json}, codec.recordToVec record = some json → newline ∉ json
  signature_length : ∀ {signer message signature},
    codec.verify signer message signature = true → signature.length = 64
  sign_verifies : ∀ message, codec.verify codec.publicKey message (codec.sign message) = true

/-! ## The device and its logs -/

variable {π : Type} [DecidableEq π]

/-- A log file, and the log that is open on it. -/
structure LogFile where
  bytes : List UInt8
  log : Option AuditLog
  /-- the records behind the head of the log -/
  history : List AuditRecord

/-- The files of a device. -/
structure AuditWorld (π : Type) where
  file : π → LogFile
  /-- every record `append` has signed, with the records it was signed after -/
  signed : List (List AuditRecord × AuditRecord)

/-- What happens to a log. -/
inductive AuditLabel (π : Type) where
  | openLog (path : π) (reader : LogReader) (result : Except AuditError AuditLog)
  | append (path : π) (event : AuditEvent) (timestampMs : Option ℕ) (failure : Option ℕ)
    (result : Except AuditError AuditHead)
  | close (path : π)
  /-- somebody else writes the file -/
  | tamper (path : π) (bytes : List UInt8)

namespace AuditLabel

/-- The file a label is about. -/
def path : AuditLabel π → π
  | .openLog path _ _ => path
  | .append path _ _ _ _ => path
  | .close path => path
  | .tamper path _ => path

/-- The file is not written by anybody else and its writes succeed. -/
def Undisturbed (path : π) : AuditLabel π → Prop
  | .append other _ _ failure _ => other = path → failure = none
  | .tamper other _ => other ≠ path
  | _ => True

/-- The handle of the file stays, and nobody else writes the file. -/
def Holds (path : π) : AuditLabel π → Prop
  | .close other => other ≠ path
  | .tamper other _ => other ≠ path
  | _ => True

end AuditLabel

/-- What a reader of a file gets: all of it, or a beginning if the file cannot be read on. -/
def LogReader.Reads (reader : LogReader) (bytes : List UInt8) : Prop :=
  if reader.ends then reader.content = bytes else reader.content <+: bytes

namespace AuditWorld

/-- Another state of a file. -/
def setFile (world : AuditWorld π) (path : π) (file : LogFile) : AuditWorld π :=
  { world with file := Function.update world.file path file }

@[simp] theorem setFile_self (world : AuditWorld π) (path : π) (file : LogFile) :
    (world.setFile path file).file path = file := by
  simp [setFile]

@[simp] theorem setFile_of_ne (world : AuditWorld π) {path other : π} (file : LogFile)
    (h : other ≠ path) : (world.setFile path file).file other = world.file other := by
  simp [setFile, h]

@[simp] theorem setFile_signed (world : AuditWorld π) (path : π) (file : LogFile) :
    (world.setFile path file).signed = world.signed := rfl

end AuditWorld

/-- The history behind the head after `append`. -/
def historyAfter (history : List AuditRecord) (made : Except AuditError (AuditRecord × ℕ))
    (result : Except AuditError AuditHead) : List AuditRecord :=
  match made, result with
  | .ok (record, _), .ok _ => history ++ [record]
  | _, _ => history

/-- The records signed after `append`. -/
def signedAfter (signed : List (List AuditRecord × AuditRecord)) (history : List AuditRecord)
    (made : Except AuditError (AuditRecord × ℕ)) : List (List AuditRecord × AuditRecord) :=
  match made with
  | .ok (record, _) => signed ++ [(history, record)]
  | .error _ => signed

/-- A step of the device, or of somebody else. A file that is cut short while a log is open on it
can also be brought into any state by one more `tamper`, so a log writes at the end. -/
inductive AuditStep (codec : AuditCodec) : AuditWorld π → AuditLabel π → AuditWorld π → Prop where
  | opened {world : AuditWorld π} {path : π} {reader : LogReader} {log : AuditLog}
      (hfree : (world.file path).log = none) (hread : reader.Reads (world.file path).bytes)
      (hopen : AuditLog.openLog codec reader = .ok log) :
      AuditStep codec world (.openLog path reader (.ok log))
        (world.setFile path ⟨(world.file path).bytes, some log, codec.records reader.content⟩)
  | refused {world : AuditWorld π} {path : π} {reader : LogReader} {e : AuditError}
      (hread : reader.Reads (world.file path).bytes)
      (hopen : AuditLog.openLog codec reader = .error e) :
      AuditStep codec world (.openLog path reader (.error e)) world
  | append {world : AuditWorld π} {path : π} {event : AuditEvent} {timestampMs failure : Option ℕ}
      {log after : AuditLog} {result : Except AuditError AuditHead} {written : List UInt8}
      (hlog : (world.file path).log = some log)
      (happend : log.append codec event timestampMs failure = (result, after, written)) :
      AuditStep codec world (.append path event timestampMs failure result)
        { world.setFile path ⟨(world.file path).bytes ++ written, some after,
            historyAfter (world.file path).history (log.record codec event timestampMs) result⟩ with
          signed := signedAfter world.signed (world.file path).history
            (log.record codec event timestampMs) }
  | close {world : AuditWorld π} {path : π} :
      AuditStep codec world (.close path)
        (world.setFile path { world.file path with log := none })
  | tamper {world : AuditWorld π} {path : π} {bytes : List UInt8} :
      AuditStep codec world (.tamper path bytes)
        (world.setFile path { world.file path with bytes })

/-- The device, from any files, before it has signed anything. -/
def auditSystem (codec : AuditCodec) : LTS (AuditWorld π) (AuditLabel π) where
  init world := (∀ path, (world.file path).log = none) ∧ world.signed = []
  step := AuditStep codec

/-! ## Histories -/

variable {codec : AuditCodec}

/-- What a record is made of a history from continues the history. -/
theorem accepted_of_made (laws : codec.Laws) {log : AuditLog} {history : List AuditRecord}
    {event : AuditEvent} {timestampMs : Option ℕ} {record : AuditRecord} {next : ℕ}
    (hhistory : codec.Accepted codec.publicKey history) (hhead : log.head = codec.headOf history)
    (hmade : log.record codec event timestampMs = .ok (record, next)) :
    codec.Accepted codec.publicKey (history ++ [record]) := by
  obtain ⟨-, rfl, hfits, hversion, hsequence, hprevious, bytes, hbytes, hsignature⟩ :=
    AuditLog.record_eq_ok hmade
  rw [hhead] at hfits hsequence hprevious
  have hholds : codec.SignatureHolds codec.publicKey record :=
    ⟨bytes, hbytes, hsignature ▸ laws.sign_verifies bytes⟩
  refine AuditCodec.accepted_snoc.mpr ⟨hhistory, AuditCodec.next_eq_ok.mpr
    ⟨hversion, hsequence, hprevious, hholds, hfits, ?_⟩⟩
  simp [AuditCodec.headOf, HashChain.Format.head]

@[simp] theorem historyAfter_error (history : List AuditRecord)
    (made : Except AuditError (AuditRecord × ℕ)) (e : AuditError) :
    historyAfter history made (.error e) = history := by
  cases made <;> rfl

/-- The head of a log stays that of its history. -/
theorem append_history (laws : codec.Laws) {log after : AuditLog} {history : List AuditRecord}
    {event : AuditEvent} {timestampMs failure : Option ℕ} {result : Except AuditError AuditHead}
    {written : List UInt8} (hhistory : codec.Accepted codec.publicKey history)
    (hhead : log.head = codec.headOf history)
    (happend : log.append codec event timestampMs failure = (result, after, written)) :
    codec.Accepted codec.publicKey
        (historyAfter history (log.record codec event timestampMs) result) ∧
      after.head = codec.headOf
        (historyAfter history (log.record codec event timestampMs) result) := by
  have happended := AuditLog.append_cases happend
  generalize hmade : log.record codec event timestampMs = made at happended ⊢
  cases happended with
  | nothing => exact ⟨by simpa using hhistory, by simpa using hhead⟩
  | failed hline => exact ⟨by simpa using hhistory, by simpa using hhead⟩
  | @done record next bytes hash hline =>
    obtain ⟨-, rfl, -, -, -, -, signable, hsignable, -⟩ := AuditLog.record_eq_ok hmade
    obtain ⟨json, -, -, -, hhash⟩ := AuditLog.line_eq_ok hline
    rw [AuditCodec.recordHash_eq hsignable] at hhash
    cases hhash
    refine ⟨accepted_of_made laws hhistory hhead hmade, ?_⟩
    simp [historyAfter, AuditCodec.headOf, HashChain.Format.head, hhead]

/-- Open logs and signed records are those of signed chains. -/
structure Chained (codec : AuditCodec) (world : AuditWorld π) : Prop where
  history : ∀ path log, (world.file path).log = some log →
    codec.Accepted codec.publicKey (world.file path).history ∧
      log.head = codec.headOf (world.file path).history
  signed : ∀ past record, (past, record) ∈ world.signed →
    codec.Accepted codec.publicKey (past ++ [record])

/-- The history of one file changes. -/
theorem Chained.setFile {world : AuditWorld π} (h : Chained codec world) {path : π} {file : LogFile}
    (hfile : ∀ log, file.log = some log → codec.Accepted codec.publicKey file.history ∧
      log.head = codec.headOf file.history) : Chained codec (world.setFile path file) := by
  refine ⟨fun other log hlog => ?_, h.signed⟩
  by_cases hother : other = path
  · subst hother
    rw [AuditWorld.setFile_self] at hlog ⊢
    exact hfile log hlog
  · rw [AuditWorld.setFile_of_ne _ _ hother] at hlog ⊢
    exact h.history other log hlog

theorem Chained.step (laws : codec.Laws) {world world' : AuditWorld π} {label : AuditLabel π}
    (h : Chained codec world) (hstep : AuditStep codec world label world') :
    Chained codec world' := by
  cases hstep with
  | @opened path reader log hfree hread hopen =>
    refine h.setFile fun log' hlog' => ?_
    cases hlog'
    obtain ⟨-, hverify⟩ := AuditLog.openLog_eq_ok hopen
    obtain ⟨-, hvalid, hhead⟩ := AuditCodec.verifyLog_eq_ok.mp hverify
    exact ⟨hvalid.accepted, hhead⟩
  | refused hread hopen => exact h
  | @append path event timestampMs failure log after result written hlog happend =>
    obtain ⟨hhistory, hhead⟩ := h.history path log hlog
    have hlater := append_history laws hhistory hhead happend
    refine ⟨(h.setFile fun log' hlog' => ?_).history, fun past record hmem => ?_⟩
    · cases hlog'
      exact hlater
    · simp only [signedAfter] at hmem
      split at hmem
      · rename_i made next hmade
        rcases List.mem_append.mp hmem with hmem | hmem
        · exact h.signed past record hmem
        · cases List.mem_singleton.mp hmem
          exact accepted_of_made laws hhistory hhead hmade
      · exact h.signed past record hmem
  | @close path => exact h.setFile fun log hlog => by cases hlog
  | @tamper path bytes => exact h.setFile fun log hlog => h.history path log hlog

theorem Chained.reachable (laws : codec.Laws) {world : AuditWorld π}
    (h : (auditSystem codec).Reachable world) : Chained codec world := by
  refine h.invariant (fun world hinit => ?_) fun _ _ _ hchained hstep => hchained.step laws hstep
  obtain ⟨hclosed, hsigned⟩ := hinit
  exact ⟨fun path log hlog => by simp [hclosed] at hlog, fun past record hmem => by
    simp [hsigned] at hmem⟩

/-! ## What a log shows -/

/-- The digest tells records apart by what is hashed of them. -/
def AuditCodec.CollisionFree (codec : AuditCodec) (records : Set AuditRecord) : Prop :=
  Set.InjOn codec.sha256 (Set.image codec.hashInput records)

/-- What is hashed of a record determines it. -/
theorem hashInput_injective (laws : codec.Laws) {record record' : AuditRecord}
    (h : codec.SignatureHolds codec.publicKey record)
    (h' : codec.SignatureHolds codec.publicKey record')
    (heq : codec.hashInput record = codec.hashInput record') : record = record' := by
  obtain ⟨bytes, hbytes, hverify⟩ := h
  obtain ⟨bytes', hbytes', hverify'⟩ := h'
  obtain ⟨json, hjson, rfl⟩ := AuditCodec.signable_eq_ok.mp hbytes
  obtain ⟨json', hjson', rfl⟩ := AuditCodec.signable_eq_ok.mp hbytes'
  simp only [AuditCodec.hashInput, hjson, hjson', Option.getD_some] at heq
  have hlength : record.signature.length = record'.signature.length :=
    (laws.signature_length hverify).trans (laws.signature_length hverify').symm
  obtain ⟨hleft, hsignature⟩ := List.append_inj' heq hlength
  obtain rfl := List.append_cancel_left hleft
  have hbody := laws.body_injective hjson hjson'
  cases record
  cases record'
  simp_all

/-- The digest tells signed records apart. -/
theorem AuditCodec.CollisionFree.chain (laws : codec.Laws) {records : Set AuditRecord}
    (hfree : codec.CollisionFree records)
    (hholds : ∀ record ∈ records, codec.SignatureHolds codec.publicKey record) :
    codec.chain.CollisionFree records := by
  intro record hrecord record' hrecord' heq
  exact hashInput_injective laws (hholds record hrecord) (hholds record' hrecord')
    (hfree ⟨record, hrecord, rfl⟩ ⟨record', hrecord', rfl⟩ heq)

/-- The records that the device has signed, and those it has signed them after. -/
def AuditWorld.Involves (world : AuditWorld π) (record : AuditRecord) : Prop :=
  ∃ past added, (past, added) ∈ world.signed ∧ record ∈ past ++ [added]

/-- A log is not forged: the device has signed its bodies. -/
def AuditWorld.Unforged (codec : AuditCodec) (world : AuditWorld π) (records : List AuditRecord) :
    Prop :=
  ∀ record ∈ records, ∀ bytes, codec.signable record.body = .ok bytes →
    codec.verify codec.publicKey bytes record.signature = true →
      ∃ past added, (past, added) ∈ world.signed ∧ codec.signable added.body = .ok bytes

theorem signable_injective (laws : codec.Laws) {body body' : AuditBody} {bytes : List UInt8}
    (h : codec.signable body = .ok bytes) (h' : codec.signable body' = .ok bytes) :
    body = body' := by
  obtain ⟨json, hjson, rfl⟩ := AuditCodec.signable_eq_ok.mp h
  obtain ⟨json', hjson', heq⟩ := AuditCodec.signable_eq_ok.mp h'
  obtain rfl := List.append_cancel_left heq
  exact laws.body_injective hjson hjson'

omit [DecidableEq π] in
/-- A log that is accepted is a signed history. -/
theorem Chained.authentic (laws : codec.Laws) {world : AuditWorld π} (h : Chained codec world)
    {records : List AuditRecord} (haccepted : codec.Accepted codec.publicKey records)
    (hunforged : world.Unforged codec records)
    (hfree : codec.CollisionFree {r | r ∈ records ∨ world.Involves r})
    {i : ℕ} {record : AuditRecord} (hrecord : records[i]? = some record) :
    ∃ added, (records.take i, added) ∈ world.signed ∧ added.body = record.body := by
  apply haccepted.linked.authentic {x | x ∈ world.signed}
  · exact fun past added hmem => (h.signed past added hmem).linked
  · intro record hmem
    obtain ⟨bytes, hbytes, hverify⟩ := haccepted.signatures record hmem
    obtain ⟨past, added, hsigned, hadded⟩ := hunforged record hmem bytes hbytes hverify
    exact ⟨past, added, hsigned, signable_injective laws hadded hbytes⟩
  · apply hfree.chain laws
    rintro record (hmem | ⟨past, added, hmem, hrecord⟩)
    · exact haccepted.signatures record hmem
    · exact (h.signed past added hmem).signatures record hrecord
  · exact hrecord

/-! ## Files that nobody disturbs -/

/-- An open log agrees with its file. -/
def Agrees (codec : AuditCodec) (file : LogFile) : Prop :=
  ∀ log, file.log = some log → codec.Valid codec.publicKey file.bytes ∧
    file.history = codec.records file.bytes ∧ log.head = codec.headOf file.history

/-- A log that agrees with its file is accepted with its head. -/
theorem Agrees.verified {file : LogFile} {log : AuditLog} (h : Agrees codec file)
    (hlog : file.log = some log) {reader : LogReader} (hends : reader.ends = true)
    (hread : reader.content = file.bytes) :
    codec.verifyLog reader codec.publicKey = .ok log.head := by
  obtain ⟨hvalid, hhistory, hhead⟩ := h log hlog
  rw [AuditCodec.verifyLog_eq_ok, hread, hhead, hhistory]
  exact ⟨hends, hvalid, rfl⟩

/-- A log that has just been opened. -/
theorem agrees_opened {reader : LogReader} {bytes : List UInt8} {log : AuditLog}
    (hread : reader.Reads bytes) (hopen : AuditLog.openLog codec reader = .ok log) :
    Agrees codec ⟨bytes, some log, codec.records reader.content⟩ := by
  intro log' hlog'
  cases hlog'
  obtain ⟨-, hverify⟩ := AuditLog.openLog_eq_ok hopen
  obtain ⟨hends, hvalid, hhead⟩ := AuditCodec.verifyLog_eq_ok.mp hverify
  rw [LogReader.Reads, if_pos hends] at hread
  exact ⟨hread ▸ hvalid, by rw [hread], hhead⟩

/-- A log after a write that did not fail. -/
theorem agrees_append (laws : codec.Laws) {file : LogFile} (h : Agrees codec file)
    {log after : AuditLog} {event : AuditEvent} {timestampMs : Option ℕ}
    {result : Except AuditError AuditHead} {written : List UInt8} (hlog : file.log = some log)
    (happend : log.append codec event timestampMs none = (result, after, written)) :
    Agrees codec ⟨file.bytes ++ written, some after,
      historyAfter file.history (log.record codec event timestampMs) result⟩ := by
  obtain ⟨hvalid, hhistory, hhead⟩ := h log hlog
  have hlater := append_history laws (hhistory ▸ hvalid.accepted) hhead happend
  intro log' hlog'
  cases hlog'
  have happended := AuditLog.append_cases happend
  generalize log.record codec event timestampMs = made at happended hlater ⊢
  cases happended with
  | nothing =>
    rw [historyAfter_error] at hlater ⊢
    exact ⟨by rwa [List.append_nil], by rw [List.append_nil, hhistory], hlater.2⟩
  | @done record next bytes hash hline =>
    obtain ⟨json, hjson, rfl, hfits, -⟩ := AuditLog.line_eq_ok hline
    have hrecorded : codec.Recorded (json ++ [newline]) record :=
      ⟨laws.record_roundTrip hjson, hfits, by simp⟩
    obtain ⟨hvalid', hrecords⟩ := AuditLog.valid_append hvalid hrecorded (laws.record_oneLine hjson)
      (hhistory ▸ hlater.1)
    exact ⟨hvalid', by rw [hrecords, ← hhistory]; rfl, hlater.2⟩

/-- A step is about one file. -/
theorem file_of_step {world world' : AuditWorld π} {label : AuditLabel π} {path : π}
    (hstep : AuditStep codec world label world') (hpath : path ≠ label.path) :
    world'.file path = world.file path := by
  cases hstep with
  | refused hread hopen => rfl
  | opened hfree hread hopen => exact AuditWorld.setFile_of_ne _ _ hpath
  | append hlog happend => exact AuditWorld.setFile_of_ne _ _ hpath
  | close => exact AuditWorld.setFile_of_ne _ _ hpath
  | tamper => exact AuditWorld.setFile_of_ne _ _ hpath

theorem Agrees.step (laws : codec.Laws) {world world' : AuditWorld π} {label : AuditLabel π}
    {path : π} (h : Agrees codec (world.file path)) (hstep : AuditStep codec world label world')
    (hlabel : label.Undisturbed path) : Agrees codec (world'.file path) := by
  by_cases hpath : path = label.path
  · cases hstep with
    | @opened other reader log hfree hread hopen =>
      obtain rfl : path = other := hpath
      rw [AuditWorld.setFile_self]
      exact agrees_opened hread hopen
    | refused hread hopen => exact h
    | @append other event timestampMs failure log after result written hlog happend =>
      obtain rfl : path = other := hpath
      obtain rfl := hlabel rfl
      simp only [AuditWorld.setFile_self]
      exact agrees_append laws h hlog happend
    | @close other =>
      obtain rfl : path = other := hpath
      rw [AuditWorld.setFile_self]
      exact fun log hlog => by cases hlog
    | tamper => exact absurd hpath.symm hlabel
  · rwa [file_of_step hstep hpath]

/-! ## Logs whose write has failed -/

/-- A write error marks the log. -/
theorem failed_of_append {log after : AuditLog} {event : AuditEvent}
    {timestampMs failure : Option ℕ}
    {written : List UInt8}
    (h : log.append codec event timestampMs failure = (.error .io, after, written)) :
    after.failed = true := by
  simp only [AuditLog.append] at h
  split at h
  · rename_i e hmade
    cases h
    exact absurd hmade (AuditLog.record_ne_io)
  · split at h
    · rename_i e hline
      cases h
      exact absurd hline (AuditLog.line_ne_io)
    · split at h
      · cases h
        rfl
      · cases h

theorem append_of_failed {log : AuditLog} (h : log.failed = true) (event : AuditEvent)
    (timestampMs failure : Option ℕ) :
    log.append codec event timestampMs failure = (.error .invalid, log, []) := by
  simp only [AuditLog.append, AuditLog.record_of_failed h]

/-- After a write error no step changes the file or the log on it. -/
theorem step_of_failed {world world' : AuditWorld π} {label : AuditLabel π} {path : π}
    {log : AuditLog} (hlog : (world.file path).log = some log) (hfailed : log.failed = true)
    (hstep : AuditStep codec world label world') (hlabel : label.Holds path) :
    world'.file path = world.file path ∧
      ∀ event timestampMs failure result,
        label = .append path event timestampMs failure result → result = .error .invalid := by
  by_cases hpath : path = label.path
  · cases hstep with
    | @opened other reader log' hfree hread hopen =>
      obtain rfl : path = other := hpath
      rw [hlog] at hfree
      cases hfree
    | refused hread hopen => exact ⟨rfl, fun _ _ _ _ h => by cases h⟩
    | @append other event timestampMs failure log' after result written hlog' happend =>
      obtain rfl : path = other := hpath
      obtain rfl := Option.some.inj (hlog.symm.trans hlog')
      rw [append_of_failed hfailed] at happend
      cases happend
      refine ⟨?_, fun _ _ _ _ h => by cases h; rfl⟩
      simp only [AuditWorld.setFile_self, historyAfter_error, List.append_nil, ← hlog]
    | close => exact absurd hpath.symm hlabel
    | tamper => exact absurd hpath.symm hlabel
  · refine ⟨file_of_step hstep hpath, fun _ _ _ _ h => ?_⟩
    subst h
    exact absurd rfl hpath

/-- A run after a write error. -/
theorem run_of_failed {path : π} {log : AuditLog} (hfailed : log.failed = true)
    {run : List (AuditLabel π × AuditWorld π)} {world : AuditWorld π}
    (hlog : (world.file path).log = some log) (hrun : (auditSystem codec).IsRun world run)
    (hmeets : LTS.Meets (fun _ label => label.Holds path) world run) :
    (LTS.last world run).file path = world.file path ∧
      ∀ x ∈ run, ∀ event timestampMs failure result,
        x.1 = .append path event timestampMs failure result → result = .error .invalid := by
  induction run generalizing world with
  | nil => exact ⟨rfl, by simp⟩
  | cons x run ih =>
    obtain ⟨label, world'⟩ := x
    obtain ⟨hfile, hresult⟩ := step_of_failed hlog hfailed hrun.1 hmeets.1
    obtain ⟨hlast, hresults⟩ := ih (hfile ▸ hlog) hrun.2 hmeets.2
    refine ⟨hlast.trans hfile, fun x hx => ?_⟩
    rcases List.mem_cons.mp hx with rfl | hx
    · exact hresult
    · exact hresults x hx

/-! ## One history -/

/-- A step of the one log of the device, with all that is signed written to it. -/
def Writes (codec : AuditCodec) (path : π) (world : AuditWorld π) : AuditLabel π → Prop
  | .append other event timestampMs failure result => other = path ∧ failure = none ∧
      ∀ log made, (world.file path).log = some log →
        log.record codec event timestampMs = .ok made → ∃ head, result = .ok head
  | .tamper _ _ => False
  | label => label.path = path

omit [DecidableEq π] in
theorem Writes.undisturbed {path : π} {world : AuditWorld π} {label : AuditLabel π}
    (h : Writes codec path world label) : label.Undisturbed path := by
  cases label with
  | append other event timestampMs failure result => exact fun _ => h.2.1
  | tamper other bytes => exact h.elim
  | openLog other reader result => trivial
  | close other => trivial

/-- What is signed is what is in the file, record after record. -/
def OneHistory (codec : AuditCodec) (path : π) (world : AuditWorld π) : Prop :=
  codec.Valid codec.publicKey (world.file path).bytes ∧
    ∀ past added, (past, added) ∈ world.signed →
      ∃ i, (codec.records (world.file path).bytes)[i]? = some added ∧
        past = (codec.records (world.file path).bytes).take i

theorem OneHistory.step (laws : codec.Laws) {world world' : AuditWorld π} {label : AuditLabel π}
    {path : π} (h : OneHistory codec path world) (hagrees : Agrees codec (world.file path))
    (hstep : AuditStep codec world label world') (hlabel : Writes codec path world label) :
    OneHistory codec path world' := by
  obtain ⟨hvalid, hsigned⟩ := h
  cases hstep with
  | @opened other reader log hfree hread hopen =>
    obtain rfl : other = path := hlabel
    simpa [OneHistory] using ⟨hvalid, hsigned⟩
  | refused hread hopen => exact ⟨hvalid, hsigned⟩
  | @append other event timestampMs failure log after result written hlog happend =>
    obtain ⟨rfl, rfl, hwritten⟩ := hlabel
    obtain ⟨-, hhistory, hhead⟩ := hagrees log hlog
    have hlater := append_history laws (hhistory ▸ hvalid.accepted) hhead happend
    have happended := AuditLog.append_cases happend
    have hwritten := hwritten log
    generalize log.record codec event timestampMs = made at happended hlater hwritten ⊢
    cases happended with
    | nothing =>
      -- nothing was signed, or it would have been written
      cases made with
      | ok made =>
        obtain ⟨head, hhead⟩ := hwritten made hlog rfl
        cases hhead
      | error e => simpa [OneHistory, signedAfter] using ⟨hvalid, hsigned⟩
    | @done record next bytes hash hline =>
      obtain ⟨json, hjson, rfl, hfits, -⟩ := AuditLog.line_eq_ok hline
      have hrecorded : codec.Recorded (json ++ [newline]) record :=
        ⟨laws.record_roundTrip hjson, hfits, by simp⟩
      obtain ⟨hvalid', hrecords⟩ := AuditLog.valid_append hvalid hrecorded
        (laws.record_oneLine hjson) (hhistory ▸ hlater.1)
      simp only [OneHistory, AuditWorld.setFile_self, signedAfter, hrecords]
      refine ⟨hvalid', fun past added hmem => ?_⟩
      rcases List.mem_append.mp hmem with hmem | hmem
      · obtain ⟨i, hi, rfl⟩ := hsigned past added hmem
        have hlt : i < (codec.records (world.file other).bytes).length :=
          (List.getElem?_eq_some_iff.mp hi).1
        exact ⟨i, by rw [List.getElem?_append_left hlt, hi], by
          rw [List.take_append_of_le_length hlt.le]⟩
      · cases List.mem_singleton.mp hmem
        exact ⟨(codec.records (world.file other).bytes).length, by simp, by
          rw [List.take_left' rfl, hhistory]⟩
  | @close other =>
    obtain rfl : other = path := hlabel
    simpa [OneHistory] using ⟨hvalid, hsigned⟩
  | tamper => exact hlabel.elim

/-- A run of the one log of a device. -/
theorem OneHistory.run (laws : codec.Laws) {path : π} {run : List (AuditLabel π × AuditWorld π)}
    {world : AuditWorld π} (h : OneHistory codec path world)
    (hagrees : Agrees codec (world.file path)) (hrun : (auditSystem codec).IsRun world run)
    (hmeets : LTS.Meets (Writes codec path) world run) :
    OneHistory codec path (LTS.last world run) := by
  induction run generalizing world with
  | nil => exact h
  | cons x run ih =>
    exact ih (h.step laws hagrees hrun.1 hmeets.1)
      (hagrees.step laws hrun.1 hmeets.1.undisturbed) hrun.2 hmeets.2

/-! ## The result -/

/-- **The history in an audit log cannot be rewritten.** What is accepted is a signed history, each
record signed after exactly those before it; the head determines the records, and any record its
past. Of the one log of a device a changed copy is accepted only if its records are the first of
the log. A log that nobody disturbs is accepted with its head, and after a write error a log
writes nothing more. -/
theorem audit_history (laws : codec.Laws) :
    (∀ world : AuditWorld π, (auditSystem codec).Reachable world → ∀ reader head,
      codec.verifyLog reader codec.publicKey = .ok head →
      world.Unforged codec (codec.records reader.content) →
      codec.CollisionFree {r | r ∈ codec.records reader.content ∨ world.Involves r} →
      ∀ i record, (codec.records reader.content)[i]? = some record → record.body.sequence = i ∧
        ∃ added, ((codec.records reader.content).take i, added) ∈ world.signed ∧
          added.body = record.body) ∧
    (∀ reader reader' head head', codec.verifyLog reader codec.publicKey = .ok head →
      codec.verifyLog reader' codec.publicKey = .ok head' →
      codec.CollisionFree {r | r ∈ codec.records reader.content ∨
        r ∈ codec.records reader'.content} →
      (head = head' → codec.records reader.content = codec.records reader'.content) ∧
      ∀ i j record record', (codec.records reader.content)[i]? = some record →
        (codec.records reader'.content)[j]? = some record' → record.body = record'.body →
        i = j ∧ (codec.records reader.content).take i = (codec.records reader'.content).take j) ∧
    (∀ (path : π) start run, (auditSystem codec).init start → (start.file path).bytes = [] →
      (auditSystem codec).IsRun start run → LTS.Meets (Writes codec path) start run →
      ∀ reader head, codec.verifyLog reader codec.publicKey = .ok head →
      (LTS.last start run).Unforged codec (codec.records reader.content) →
      codec.CollisionFree
        {r | r ∈ codec.records reader.content ∨ (LTS.last start run).Involves r} →
      (codec.records reader.content).dropLast <+:
          codec.records ((LTS.last start run).file path).bytes ∧
        (codec.records reader.content).map AuditRecord.body <+:
          (codec.records ((LTS.last start run).file path).bytes).map AuditRecord.body) ∧
    (∀ (path : π) start run, (auditSystem codec).init start → (auditSystem codec).IsRun start run →
      LTS.Meets (fun _ label => label.Undisturbed path) start run →
      LTS.Keeps (fun world => ∀ log, (world.file path).log = some log → ∀ reader,
        reader.ends = true → reader.content = (world.file path).bytes →
        codec.verifyLog reader codec.publicKey = .ok log.head) start run) ∧
    (∀ (path : π) (world world' : AuditWorld π) event timestampMs failure run,
      AuditStep codec world (.append path event timestampMs failure (.error .io)) world' →
      (auditSystem codec).IsRun world' run →
      LTS.Meets (fun _ label => label.Holds path) world' run →
      (LTS.last world' run).file path = world'.file path ∧
        ∀ x ∈ run, ∀ event timestampMs failure result,
          x.1 = .append path event timestampMs failure result → result = .error .invalid) := by
  refine ⟨?_, ?_, ?_, ?_, ?_⟩
  -- an accepted log is a log of the device
  · intro world hworld reader head hverify hunforged hfree i record hrecord
    obtain ⟨-, hvalid, -⟩ := AuditCodec.verifyLog_eq_ok.mp hverify
    exact ⟨hvalid.accepted.linked.number_eq hrecord,
      (Chained.reachable laws hworld).authentic laws hvalid.accepted hunforged hfree hrecord⟩
  · intro reader reader' head head' hverify hverify' hfree
    obtain ⟨-, hvalid, rfl⟩ := AuditCodec.verifyLog_eq_ok.mp hverify
    -- both logs are chains over one collision-free hash
    obtain ⟨-, hvalid', rfl⟩ := AuditCodec.verifyLog_eq_ok.mp hverify'
    have hchain := hfree.chain laws fun record hrecord =>
      hrecord.elim (hvalid.accepted.signatures record) (hvalid'.accepted.signatures record)
    refine ⟨fun hhead => ?_, fun i j record record' hrecord hrecord' hbody =>
      hvalid.accepted.linked.past_eq hvalid'.accepted.linked hchain hrecord hrecord' hbody⟩
    exact hvalid.accepted.linked.eq_of_head hvalid'.accepted.linked hchain
      (Prod.ext (congrArg AuditHead.records hhead) (congrArg AuditHead.hash hhead))
  · intro path start run hinit hempty hrun hmeets reader head hverify hunforged hfree
    obtain ⟨-, hvalid, -⟩ := AuditCodec.verifyLog_eq_ok.mp hverify
    have hchained : Chained codec (LTS.last start run) :=
      Chained.reachable laws (LTS.Reachable.of_run (.init hinit) hrun)
    -- the run adds to one chain only, and what is read is a piece of its line
    have hstart : OneHistory codec path start := by
      refine ⟨?_, fun past added hmem => by simp [hinit.2] at hmem⟩
      rw [hempty]
      exact ⟨.nil, .nil⟩
    have hagrees : Agrees codec (start.file path) := fun log hlog => by simp [hinit.1] at hlog
    obtain ⟨-, hline⟩ := hstart.run laws hagrees hrun hmeets
    exact HashChain.Format.Linked.prefix_of_line (F := codec.chain)
      {x | x ∈ (LTS.last start run).signed} hline
      fun i record hrecord => hchained.authentic laws hvalid.accepted hunforged hfree hrecord
  · intro path start run hinit hrun hmeets
    have hagrees : Agrees codec (start.file path) := fun log hlog => by simp [hinit.1] at hlog
    -- nobody else writes, so the file stays what the log takes it for
    have hkeeps := LTS.keeps_of_meets (P := fun world => Agrees codec (world.file path))
      (fun world label world' h hstep hlabel => Agrees.step laws h hstep hlabel) hagrees hrun hmeets
    exact hkeeps.mono fun _ h _ hlog _ hends hread => Agrees.verified h hlog hends hread
  · intro path world world' event timestampMs failure run hstep hrun hmeets
    cases hstep with
    | append hlog happend =>
      exact run_of_failed (failed_of_append happend) (by simp) hrun hmeets

namespace FirstRecord

/-! A device accepts its first session and writes that into an empty log. The key pair is the one
of the seed of zeros. -/

def event : AuditEvent :=
  ⟨⟨123456789, DeviceId.ascending_inRange⟩, ⟨987654321, DeviceId.descending_inRange⟩,
    .sessionAccepted, .success, 0⟩

def body : AuditBody := ⟨1, 0, 5, Vector.replicate 32 0, event⟩

@[irreducible] def signature : List UInt8 :=
  [125, 203, 70, 61, 91, 123, 149, 111, 10, 61, 63, 57, 16, 81, 103, 187, 126, 249, 78, 232, 220,
    151, 132, 222, 59, 140, 232, 0, 1, 212, 170, 241, 202, 129, 58, 2, 11, 75, 80, 8, 197, 180, 245,
    170, 96, 195, 57, 17, 9, 171, 98, 116, 112, 4, 33, 161, 188, 109, 222, 253, 192, 73, 114, 10]

def record : AuditRecord := ⟨body, signature⟩

@[irreducible] def bodyJson : List UInt8 :=
  utf8 "\x7b\"version\":1,\"sequence\":0,\"timestamp_ms\":5,\"previous\":[0,0,0,0,0,0,0,0,0,0," ++
    utf8 "0,0,0,0,0,0,0,0,0,0,0,0,0,0,0,0,0,0,0,0,0,0],\"event\":\x7b\"actor\":123456789," ++
    utf8 "\"target\":987654321,\"action\":\"SessionAccepted\",\"outcome\":\"Success\",\"bytes\":0\x7d\x7d"

@[irreducible] def recordJson : List UInt8 :=
  utf8 "\x7b\"body\":" ++ bodyJson ++
    utf8 ",\"signature\":[125,203,70,61,91,123,149,111,10,61,63,57,16,81,103,187,126,249,78,232," ++
    utf8 "220,151,132,222,59,140,232,0,1,212,170,241,202,129,58,2,11,75,80,8,197,180,245,170,96," ++
    utf8 "195,57,17,9,171,98,116,112,4,33,161,188,109,222,253,192,73,114,10]\x7d"

def digest : Digest :=
  #v[160, 182, 102, 167, 230, 143, 49, 120, 241, 242, 238, 84, 228, 137, 177, 166, 243, 251, 29,
    213, 89, 160, 159, 227, 42, 200, 77, 229, 117, 12, 56, 179]

def publicKey : PublicKey :=
  #v[59, 106, 39, 188, 206, 182, 164, 45, 98, 163, 168, 208, 42, 111, 13, 115, 101, 50, 21, 119, 29,
    226, 67, 166, 58, 192, 72, 161, 139, 89, 218, 41]

def sign (message : List UInt8) : List UInt8 :=
  if message = AUDIT_DOMAIN ++ bodyJson then signature else List.replicate 64 0

/-- The code the log calls, as far as this record needs it. -/
def device : AuditCodec where
  bodyToVec b := if b = body then some bodyJson else none
  recordToVec r := if r = record then some recordJson else none
  recordFromSlice bytes := if bytes = recordJson ++ [newline] then some record else none
  sha256 bytes :=
    if bytes = AUDIT_DOMAIN ++ bodyJson ++ signature then digest else Vector.replicate 32 0
  publicKey := publicKey
  sign := sign
  verify signer message given := decide (signer = publicKey ∧ given = sign message)

@[simp] theorem device_bodyToVec : device.bodyToVec body = some bodyJson := by
  simp [device]

@[simp] theorem device_recordToVec : device.recordToVec record = some recordJson := if_pos rfl

@[simp] theorem device_recordFromSlice :
    device.recordFromSlice (recordJson ++ [newline]) = some record := if_pos rfl

@[simp] theorem device_sign : device.sign (AUDIT_DOMAIN ++ bodyJson) = signature := if_pos rfl

@[simp] theorem device_sha256 :
    device.sha256 (AUDIT_DOMAIN ++ bodyJson ++ signature) = digest := if_pos rfl

theorem newline_notMem : newline ∉ recordJson := by decide +kernel

theorem laws : device.Laws where
  body_injective := by
    intro b b' json h h'
    simp only [device, Option.ite_none_right_eq_some] at h h'
    rw [h.1, h'.1]
  record_roundTrip := by
    intro r json h
    simp only [device, Option.ite_none_right_eq_some, Option.some.injEq] at h
    obtain ⟨rfl, rfl⟩ := h
    exact device_recordFromSlice
  record_oneLine := by
    intro r json h
    simp only [device, Option.ite_none_right_eq_some, Option.some.injEq] at h
    obtain ⟨-, rfl⟩ := h
    exact newline_notMem
  signature_length := by
    intro signer message given h
    obtain ⟨-, rfl⟩ := of_decide_eq_true h
    have hlength : signature.length = 64 := by decide +kernel
    simp only [sign]
    split
    · exact hlength
    · exact List.length_replicate
  sign_verifies message := decide_eq_true ⟨rfl, rfl⟩

def closed : AuditWorld Unit := ⟨fun _ => ⟨[], none, []⟩, []⟩

def opened : AuditWorld Unit := closed.setFile () ⟨[], some ⟨.default, false⟩, []⟩

def appended : AuditWorld Unit :=
  { opened.setFile () ⟨recordJson ++ [newline], some ⟨⟨1, digest⟩, false⟩, [record]⟩ with
    signed := [([], record)] }

def label : AuditLabel Unit := .append () event (some 5) none (.ok ⟨1, digest⟩)

theorem signable : device.signable body = .ok (AUDIT_DOMAIN ++ bodyJson) := by
  simp only [AuditCodec.signable, device_bodyToVec, Option.elim]

theorem made : AuditLog.record device ⟨.default, false⟩ event (some 5) = .ok (record, 1) := by
  have hsignable : device.signable ⟨1, 0, 5, Vector.replicate 32 0, event⟩ =
      .ok (AUDIT_DOMAIN ++ bodyJson) := signable
  have hcount : checkedAdd 64 0 1 = some 1 := rfl
  simp [AuditLog.record, AuditHead.default, hcount, hsignable, bind, Except.bind, pure, Except.pure,
    record, body]

theorem fits : (recordJson ++ [newline]).length ≤ MAX_LINE := by decide +kernel

theorem digest_eq : device.chain.digest record = digest := by
  simp only [AuditCodec.chain, AuditCodec.hashInput, record, device_bodyToVec, Option.getD_some,
    device_sha256]

theorem line : AuditLog.line device record = .ok (recordJson ++ [newline], digest) := by
  have hhash : device.recordHash record = .ok digest := by
    rw [AuditCodec.recordHash_eq signable, digest_eq]
  simp only [AuditLog.line, device_recordToVec, hhash, bind, Except.bind, pure, Except.pure,
    Option.elim,
    if_neg (Nat.not_lt.mpr fits)]

theorem open_step :
    AuditStep device closed (.openLog () ⟨[], true⟩ (.ok ⟨.default, false⟩)) opened := by
  refine .opened rfl rfl ?_
  have hverify : device.verifyLog ⟨[], true⟩ device.publicKey = .ok .default :=
    AuditCodec.verifyFrom_nil rfl
  simp only [AuditLog.openLog, hverify]
  rfl

theorem append_step : AuditStep device opened label appended := by
  have happend : AuditLog.append device ⟨.default, false⟩ event (some 5) none =
      (.ok ⟨1, digest⟩, ⟨⟨1, digest⟩, false⟩, recordJson ++ [newline]) := by
    simp only [AuditLog.append, made, line]
  have hstep := AuditStep.append (show (opened.file ()).log = _ from rfl) happend
  rw [made] at hstep
  exact hstep

/-- The log is accepted with its one record, which was signed first. -/
theorem accepted :
    device.verifyLog ⟨[recordJson ++ [newline]], true⟩ device.publicKey = .ok ⟨1, digest⟩ ∧
      ∃ added, ([], added) ∈ appended.signed ∧ added.body = body := by
  obtain ⟨hauthentic, -, -, hkeeps, -⟩ := audit_history (π := Unit) laws
  have hrun : (auditSystem device).IsRun closed
      [(.openLog () ⟨[], true⟩ (.ok ⟨.default, false⟩), opened), (label, appended)] :=
    ⟨open_step, append_step, trivial⟩
  have hinit : (auditSystem device).init closed := ⟨fun _ => rfl, rfl⟩
  have hkept := hkeeps () closed _ hinit hrun ⟨trivial, fun _ => rfl, trivial⟩
  have hverify := hkept.last ⟨⟨1, digest⟩, false⟩ rfl ⟨[recordJson ++ [newline]], true⟩ rfl
    (List.append_nil _)
  refine ⟨hverify, ?_⟩
  have hcontent : LogReader.content ⟨[recordJson ++ [newline]], true⟩ = recordJson ++ [newline] :=
    List.append_nil _
  have hrecords : device.records (recordJson ++ [newline]) = [record] := by
    rw [AuditCodec.records, lines_append newline_notMem, lines,
      List.filterMap_cons_some device_recordFromSlice, List.filterMap_nil]
  have hreachable := LTS.Reachable.of_run (.init hinit) hrun
  have hfirst := hauthentic appended hreachable _ _ hverify
  rw [hcontent, hrecords] at hfirst
  obtain ⟨-, hsigned⟩ := hfirst
    (by
      intro r hr bytes hbytes hholds
      cases List.mem_singleton.mp hr
      exact ⟨[], record, by simp [appended], hbytes⟩)
    (by
      have hone : {r | r ∈ [record] ∨ appended.Involves r} = {record} := by
        ext r
        simp [AuditWorld.Involves, appended]
      rw [hone, AuditCodec.CollisionFree, Set.image_singleton]
      exact Set.injOn_singleton _ _)
    0 record rfl
  exact hsigned

end FirstRecord

end SensorRemote
