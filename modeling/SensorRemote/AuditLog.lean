import SensorRemote.Audit
import SensorRemote.Lib.Bytes
import SensorRemote.Lib.HashChain
import Mathlib.Data.List.Forall2

/-!
# The audit log

`AuditLog` (`sensor-audit`) appends signed records to a file, each with the digest of the one
before; `verify` reads a file back and tells its head. Serialization, the digest and the
signature scheme are parameters.
-/

namespace SensorRemote

open Bytes

def MAX_LINE : ℕ := 4096

def newline : UInt8 := 10

/-- `DOMAIN`. -/
def AUDIT_DOMAIN : List UInt8 := utf8 "SENSOR/audit/v1"

/-- A SHA-256 digest. -/
abbrev Digest := Vector UInt8 32

/-- `Body`. -/
structure AuditBody where
  version : ℕ
  sequence : ℕ
  timestampMs : ℕ
  previous : Digest
  event : AuditEvent
  deriving DecidableEq

/-- `Record`. -/
structure AuditRecord where
  body : AuditBody
  signature : List UInt8
  deriving DecidableEq

/-- `AuditHead`. -/
structure AuditHead where
  records : ℕ
  hash : Digest
  deriving DecidableEq

/-- `AuditHead::default`. -/
def AuditHead.default : AuditHead := ⟨0, Vector.replicate 32 0⟩

/-- The code the log calls: `serde_json`, SHA-256 and the key pair of the device. -/
structure AuditCodec where
  /-- `serde_json::to_vec` of a body -/
  bodyToVec : AuditBody → Option (List UInt8)
  /-- `serde_json::to_vec` of a record -/
  recordToVec : AuditRecord → Option (List UInt8)
  /-- `serde_json::from_slice` -/
  recordFromSlice : List UInt8 → Option AuditRecord
  /-- `Sha256::finalize` of the bytes put in -/
  sha256 : List UInt8 → Digest
  /-- `identity.public_key()` -/
  publicKey : PublicKey
  /-- `identity.sign` -/
  sign : List UInt8 → List UInt8
  /-- whether `IdentityKeypair::verify` accepts a signature of a message -/
  verify : PublicKey → List UInt8 → List UInt8 → Bool

namespace AuditCodec

variable (codec : AuditCodec)

/-- `signable`. -/
def signable (body : AuditBody) : Except AuditError (List UInt8) :=
  (codec.bodyToVec body).elim (.error .json) fun json => .ok (AUDIT_DOMAIN ++ json)

/-- `record_hash`. -/
def recordHash (record : AuditRecord) : Except AuditError Digest := do
  let bytes ← codec.signable record.body
  return codec.sha256 (bytes ++ record.signature)

end AuditCodec

/-! ## Reading -/

/-- The buffered reader of a file: what each refill of its buffer reads, and whether the file
then ends or cannot be read on. -/
structure LogReader where
  chunks : List (List UInt8)
  ends : Bool

/-- The bytes of the file. -/
def LogReader.content (reader : LogReader) : List UInt8 := reader.chunks.flatten

/-- The inner loop of `verify`: a line, and what is left to read. It has no bytes at the end of the
file. -/
def readLine (ends : Bool) : List (List UInt8) → List UInt8 →
    Except AuditError (List UInt8 × List (List UInt8))
  | [], line => if ends then .ok (line, []) else .error .io
  | available :: chunks, line =>
    match available.findIdx? (· = newline) with
    | none =>
      if line.length + available.length > MAX_LINE then .error .invalid
      else readLine ends chunks (line ++ available)
    | some n =>
      if line.length + (n + 1) > MAX_LINE then .error .invalid
      else .ok (line ++ available.take (n + 1), available.drop (n + 1) :: chunks)

/-- Reading a line takes its bytes off the file. -/
theorem readLine_eq_ok {ends : Bool} {chunks rest : List (List UInt8)} {line whole : List UInt8}
    (h : readLine ends chunks line = .ok (whole, rest)) :
    whole ++ rest.flatten = line ++ chunks.flatten := by
  induction chunks generalizing line with
  | nil =>
    cases ends with
    | false => cases h
    | true =>
      cases h
      rfl
  | cons available chunks ih =>
    simp only [readLine] at h
    cases hfind : available.findIdx? (· = newline) with
    | none =>
      simp only [hfind] at h
      split at h
      · cases h
      · rw [ih h, List.append_assoc, List.flatten_cons]
    | some n =>
      simp only [hfind] at h
      split at h
      · cases h
      · cases h
        rw [List.flatten_cons, List.flatten_cons, ← List.append_assoc, List.append_assoc line,
          List.take_append_drop, List.append_assoc]

theorem readLine_shortens {ends : Bool} {chunks rest : List (List UInt8)} {whole : List UInt8}
    (h : readLine ends chunks [] = .ok (whole, rest)) (hwhole : ¬whole = []) :
    rest.flatten.length < chunks.flatten.length := by
  have hpos : 0 < whole.length := List.length_pos_iff.mpr hwhole
  have hlength := congrArg List.length (readLine_eq_ok h)
  simp only [List.length_append, List.length_nil] at hlength
  omega

namespace AuditCodec

variable (codec : AuditCodec)

/-- What `verify` does with a record: the head after it. -/
def next (signer : PublicKey) (head : AuditHead) (record : AuditRecord) :
    Except AuditError AuditHead := do
  if record.body.version ≠ 1 ∨ record.body.sequence ≠ head.records
      ∨ record.body.previous ≠ head.hash then throw .invalid
  let bytes ← codec.signable record.body
  if ¬codec.verify signer bytes record.signature then throw .invalid
  let records ← (checkedAdd 64 head.records 1).elim (throw .invalid) pure
  let hash ← codec.recordHash record
  return ⟨records, hash⟩

/-- The outer loop of `verify`. -/
def verifyFrom (signer : PublicKey) (ends : Bool) (head : AuditHead) (chunks : List (List UInt8)) :
    Except AuditError AuditHead :=
  match _ : readLine ends chunks [] with
  | .error e => .error e
  | .ok (line, rest) =>
    if _ : line = [] then .ok head
    else if line.getLast? ≠ some newline then .error .invalid
    else
      match codec.recordFromSlice line with
      | none => .error .json
      | some record =>
        match codec.next signer head record with
        | .error e => .error e
        | .ok head => verifyFrom signer ends head rest
termination_by chunks.flatten.length
decreasing_by exact readLine_shortens ‹_› ‹¬line = []›

/-- `verify`. -/
def verifyLog (reader : LogReader) (signer : PublicKey) : Except AuditError AuditHead :=
  codec.verifyFrom signer reader.ends .default reader.chunks

end AuditCodec

/-! ## Appending -/

/-- `AuditLog`, less the file. -/
structure AuditLog where
  head : AuditHead
  failed : Bool
  deriving DecidableEq

namespace AuditLog

variable (codec : AuditCodec) (log : AuditLog)

/-- `AuditLog::open`, when the file can be opened and nobody else has its lock. -/
def openLog (reader : LogReader) : Except AuditError AuditLog := do
  let head ← codec.verifyLog reader codec.publicKey
  return ⟨head, false⟩

/-- The record that `append` makes, and the count after it. The time is `none` when the clock is out
of range. -/
def record (event : AuditEvent) (timestampMs : Option ℕ) : Except AuditError (AuditRecord × ℕ) := do
  if log.failed then throw .invalid
  let next ← (checkedAdd 64 log.head.records 1).elim (throw .invalid) pure
  let timestampMs ← timestampMs.elim (throw .invalid) pure
  let body : AuditBody := ⟨1, log.head.records, timestampMs, log.head.hash, event⟩
  let bytes ← codec.signable body
  return (⟨body, codec.sign bytes⟩, next)

/-- The line that `append` writes for a record, and the hash of the record. -/
def line (record : AuditRecord) : Except AuditError (List UInt8 × Digest) := do
  let json ← (codec.recordToVec record).elim (throw .json) pure
  let bytes := json ++ [newline]
  if bytes.length > MAX_LINE then throw .invalid
  let hash ← codec.recordHash record
  return (bytes, hash)

/-- `AuditLog::append`: the result, the log afterwards and the bytes put at the end of the file.
`failure` tells after how many bytes the write fails, if it does; after all of them it is the
synchronization that fails. -/
def append (event : AuditEvent) (timestampMs : Option ℕ) (failure : Option ℕ) :
    Except AuditError AuditHead × AuditLog × List UInt8 :=
  match log.record codec event timestampMs with
  | .error e => (.error e, log, [])
  | .ok (record, next) =>
    match line codec record with
    | .error e => (.error e, log, [])
    | .ok (bytes, hash) =>
      match failure with
      | some written => (.error .io, { log with failed := true }, bytes.take written)
      | none => (.ok ⟨next, hash⟩, { log with head := ⟨next, hash⟩ }, bytes)

end AuditLog

/-! ## Lines

The result of reading does not depend on the refills of the buffer: it is that of going through
the lines of the file. -/

/-- The lines of a file. Only the last may lack its newline. -/
def lines : List UInt8 → List (List UInt8)
  | [] => []
  | b :: bytes =>
    if b = newline then [b] :: lines bytes
    else
      match lines bytes with
      | [] => [[b]]
      | line :: rest => (b :: line) :: rest

theorem lines_append {line : List UInt8} (h : newline ∉ line) (bytes : List UInt8) :
    lines (line ++ newline :: bytes) = (line ++ [newline]) :: lines bytes := by
  induction line with
  | nil => rw [List.nil_append, lines, if_pos rfl, List.nil_append]
  | cons b line ih =>
    obtain ⟨hb, hline⟩ := not_or.mp (List.mem_cons.not.mp h)
    rw [List.cons_append, lines, if_neg (Ne.symm hb), ih hline]
    rfl

theorem lines_of_notMem {bytes : List UInt8} (h : newline ∉ bytes) (hne : bytes ≠ []) :
    lines bytes = [bytes] := by
  induction bytes with
  | nil => exact absurd rfl hne
  | cons b bytes ih =>
    obtain ⟨hb, hbytes⟩ := not_or.mp (List.mem_cons.not.mp h)
    rw [lines, if_neg (Ne.symm hb)]
    cases bytes with
    | nil => rfl
    | cons c bytes => rw [ih hbytes (by simp)]

/-- More lines after whole ones. -/
theorem lines_append_whole {bytes : List UInt8} (more : List UInt8)
    (h : ∀ line ∈ lines bytes, line.getLast? = some newline) :
    lines (bytes ++ more) = lines bytes ++ lines more := by
  generalize hn : bytes.length = n
  induction n using Nat.strongRecOn generalizing bytes with
  | ind n ih =>
    by_cases hempty : bytes = []
    · subst hempty
      rfl
    by_cases hmem : newline ∈ bytes
    · obtain ⟨line, rest, rfl, hline⟩ := List.eq_append_cons_of_mem hmem
      rw [lines_append hline] at h ⊢
      have hshorter : rest.length < n := by
        rw [← hn, List.length_append, List.length_cons]
        omega
      rw [List.append_assoc, List.cons_append, lines_append hline, List.cons_append,
        ih _ hshorter (fun l hl => h l (List.mem_cons_of_mem _ hl)) rfl]
    · rw [lines_of_notMem hmem hempty] at h
      exact absurd (List.mem_of_getLast? (h bytes (by simp))) hmem

/-- A file begins with a line, unless it has none. -/
theorem exists_line {bytes : List UInt8} (h : newline ∈ bytes) :
    ∃ line rest, bytes = line ++ newline :: rest ∧ newline ∉ line := by
  obtain ⟨line, rest, hbytes, hline⟩ := List.eq_append_cons_of_mem h
  exact ⟨line, rest, hbytes, hline⟩

/-- Where the first line ends is determined. -/
theorem line_unique {line line' rest rest' : List UInt8} (h : newline ∉ line)
    (h' : newline ∉ line') (heq : line ++ newline :: rest = line' ++ newline :: rest') :
    line = line' ∧ rest = rest' := by
  have hfirst := congrArg (fun bytes => (lines bytes).head?) heq
  simp only [lines_append h, lines_append h', List.head?_cons, Option.some.injEq] at hfirst
  obtain rfl : line = line' := List.append_cancel_right hfirst
  exact ⟨rfl, by simpa using heq⟩

/-- A buffer up to its first newline. -/
theorem split_of_findIdx {available : List UInt8} {n : ℕ}
    (h : available.findIdx? (· = newline) = some n) :
    ∃ line rest, available = line ++ newline :: rest ∧ newline ∉ line ∧ line.length = n := by
  obtain ⟨hn, hget, hbefore⟩ := List.findIdx?_eq_some_iff_getElem.mp h
  refine ⟨available.take n, available.drop (n + 1), ?_, ?_, by simp; omega⟩
  · have hnewline : available[n] = newline := by simpa using hget
    rw [← hnewline, List.getElem_cons_drop, List.take_append_drop]
  · intro hmem
    obtain ⟨j, hj, hjn⟩ := List.mem_take_iff_getElem.mp hmem
    have hlt : j < n := by omega
    exact absurd hjn (by simpa using hbefore j hlt)

theorem take_line (line rest : List UInt8) :
    (line ++ newline :: rest).take (line.length + 1) = line ++ [newline] := by
  rw [List.append_cons]
  exact List.take_left' (by simp)

theorem drop_line (line rest : List UInt8) :
    (line ++ newline :: rest).drop (line.length + 1) = rest := by
  rw [List.append_cons]
  exact List.drop_left' (by simp)

theorem notMem_of_findIdx {available : List UInt8}
    (h : available.findIdx? (· = newline) = none) : newline ∉ available := by
  intro hmem
  simpa using List.findIdx?_eq_none_iff.mp h newline hmem

section ReadLine

variable {ends : Bool} {chunks rest : List (List UInt8)} {line whole : List UInt8}

/-- A line that is read is a whole one, or what was left of the file. -/
theorem readLine_cases (h : readLine ends chunks line = .ok (whole, rest)) (hline : newline ∉ line)
    (hlength : line.length ≤ MAX_LINE) :
    whole.length ≤ MAX_LINE ∧ ((∃ body, whole = body ++ [newline] ∧ newline ∉ body) ∨
      (newline ∉ whole ∧ rest = [] ∧ ends = true)) := by
  induction chunks generalizing line with
  | nil =>
    cases ends with
    | false => cases h
    | true =>
      cases h
      exact ⟨hlength, .inr ⟨hline, rfl, rfl⟩⟩
  | cons available chunks ih =>
    simp only [readLine] at h
    cases hfind : available.findIdx? (· = newline) with
    | none =>
      simp only [hfind] at h
      split at h
      · cases h
      · have havailable := notMem_of_findIdx hfind
        exact ih h (by simp [hline, havailable]) (by rw [List.length_append]; omega)
    | some n =>
      simp only [hfind] at h
      split at h
      · cases h
      · obtain ⟨begun, more, rfl, hbegun, rfl⟩ := split_of_findIdx hfind
        cases h
        rw [take_line]
        refine ⟨by simp; omega, .inl ⟨line ++ begun, by simp, by simp [hline, hbegun]⟩⟩

variable (ends) in
/-- A line that fits is read. -/
theorem readLine_line {body more : List UInt8} (hbody : newline ∉ body)
    (hlength : body.length < MAX_LINE) (hline : newline ∉ line)
    (heq : line ++ chunks.flatten = body ++ newline :: more) :
    ∃ rest, readLine ends chunks line = .ok (body ++ [newline], rest) ∧ rest.flatten = more := by
  induction chunks generalizing line with
  | nil =>
    rw [List.flatten_nil, List.append_nil] at heq
    exact absurd (heq ▸ hline) (by simp)
  | cons available chunks ih =>
    rw [List.flatten_cons, ← List.append_assoc] at heq
    cases hfind : available.findIdx? (· = newline) with
    | none =>
      have hboth : newline ∉ line ++ available := by simp [hline, notMem_of_findIdx hfind]
      have hfits : ¬line.length + available.length > MAX_LINE := by
        -- without a newline the buffer ends before the line does
        by_contra hlong
        have hwhole : body ++ [newline] <+: body ++ newline :: more := ⟨more, by simp⟩
        have hbegins : body ++ [newline] <+: line ++ available := by
          apply List.prefix_of_prefix_length_le hwhole ⟨chunks.flatten, heq⟩
          simp
          omega
        exact hboth (hbegins.subset (by simp))
      simp only [readLine, hfind, if_neg hfits]
      exact ih hboth heq
    | some n =>
      obtain ⟨begun, later, rfl, hbegun, rfl⟩ := split_of_findIdx hfind
      have hboth : newline ∉ line ++ begun := by simp [hline, hbegun]
      obtain ⟨rfl, rfl⟩ := line_unique hboth hbody
        (show line ++ begun ++ newline :: (later ++ chunks.flatten) = _ by simpa using heq)
      rw [List.length_append] at hlength
      have hfits : ¬line.length + (begun.length + 1) > MAX_LINE := by omega
      simp only [readLine, hfind, if_neg hfits, take_line, drop_line]
      exact ⟨_, by rw [List.append_assoc], List.flatten_cons⟩

variable (ends) in
theorem readLine_nil (h : chunks.flatten = []) :
    readLine ends chunks [] = if ends then .ok ([], []) else .error .io := by
  induction chunks with
  | nil => rfl
  | cons available chunks ih =>
    rw [List.flatten_cons, List.append_eq_nil_iff] at h
    obtain ⟨rfl, hchunks⟩ := h
    exact ih hchunks

end ReadLine

namespace AuditCodec

variable {codec : AuditCodec} {signer : PublicKey} {ends : Bool} {head final : AuditHead}

/-- Going through the lines of a file. -/
def verifyLines (codec : AuditCodec) (signer : PublicKey) (head : AuditHead) :
    List (List UInt8) → Except AuditError AuditHead
  | [] => .ok head
  | line :: rest =>
    if line.length > MAX_LINE ∨ line.getLast? ≠ some newline then .error .invalid
    else
      match codec.recordFromSlice line with
      | none => .error .json
      | some record =>
        match codec.next signer head record with
        | .error e => .error e
        | .ok head => verifyLines codec signer head rest

theorem verifyFrom_nil {chunks : List (List UInt8)} (h : chunks.flatten = []) :
    codec.verifyFrom signer ends head chunks = if ends then .ok head else .error .io := by
  rw [verifyFrom]
  have hread := readLine_nil ends h
  cases ends with
  | false => split <;> simp_all
  | true => split <;> simp_all

variable (codec signer ends head) in
/-- A whole line is checked before the rest. -/
theorem verifyFrom_line {chunks : List (List UInt8)} {body more : List UInt8}
    (hbody : newline ∉ body) (hlength : body.length < MAX_LINE)
    (h : chunks.flatten = body ++ newline :: more) :
    ∃ rest, rest.flatten = more ∧ codec.verifyFrom signer ends head chunks =
      match codec.recordFromSlice (body ++ [newline]) with
      | none => .error .json
      | some record =>
        match codec.next signer head record with
        | .error e => .error e
        | .ok head => codec.verifyFrom signer ends head rest := by
  obtain ⟨rest, hread, hrest⟩ := readLine_line ends hbody hlength (by simp)
    (show [] ++ chunks.flatten = _ from h)
  refine ⟨rest, hrest, ?_⟩
  rw [verifyFrom]
  split
  · simp_all
  · rename_i heq
    rw [hread] at heq
    cases heq
    simp

/-- The file begins with a line that fits. -/
def BeginsWithLine (bytes : List UInt8) : Prop :=
  ∃ body more, bytes = body ++ newline :: more ∧ newline ∉ body ∧ body.length < MAX_LINE

theorem beginsWithLine_of_verifyFrom {chunks : List (List UInt8)} (hne : chunks.flatten ≠ [])
    (h : codec.verifyFrom signer ends head chunks = .ok final) :
    BeginsWithLine chunks.flatten := by
  rw [verifyFrom] at h
  split at h
  · cases h
  · rename_i whole rest hread
    obtain ⟨hwhole, hends⟩ := readLine_cases hread (by simp) (Nat.zero_le _)
    have hall := readLine_eq_ok hread
    rw [List.nil_append] at hall
    rcases hends with ⟨body, rfl, hbody⟩ | ⟨hnone, rfl, -⟩
    · exact ⟨body, rest.flatten, by simpa using hall.symm, hbody,
        Nat.lt_of_succ_le (by simpa using hwhole)⟩
    · -- what is left is no whole line
      rw [List.flatten_nil, List.append_nil] at hall
      have hlast : whole.getLast? ≠ some newline := fun h => hnone (List.mem_of_getLast? h)
      rw [dif_neg (hall ▸ hne), if_pos hlast] at h
      cases h

theorem beginsWithLine_of_verifyLines {bytes : List UInt8} (hne : bytes ≠ [])
    (h : codec.verifyLines signer head (lines bytes) = .ok final) : BeginsWithLine bytes := by
  by_cases hmem : newline ∈ bytes
  · obtain ⟨body, more, rfl, hbody⟩ := exists_line hmem
    refine ⟨body, more, rfl, hbody, ?_⟩
    by_contra hlong
    rw [lines_append hbody, verifyLines, if_pos (.inl (by simp; omega))] at h
    cases h
  · have hlast : bytes.getLast? ≠ some newline := fun h => hmem (List.mem_of_getLast? h)
    rw [lines_of_notMem hmem hne, verifyLines, if_pos (.inr hlast)] at h
    cases h

/-- Reading a file is going through its lines, however the buffer is refilled. -/
theorem verifyFrom_eq_ok {chunks : List (List UInt8)} :
    codec.verifyFrom signer ends head chunks = .ok final ↔
      ends = true ∧ codec.verifyLines signer head (lines chunks.flatten) = .ok final := by
  generalize hn : chunks.flatten.length = n
  induction n using Nat.strongRecOn generalizing head chunks with
  | ind n ih =>
    by_cases hempty : chunks.flatten = []
    · rw [verifyFrom_nil hempty, hempty]
      cases ends <;> simp [lines, verifyLines]
    by_cases hline : BeginsWithLine chunks.flatten
    · obtain ⟨body, more, heq, hbody, hlength⟩ := hline
      obtain ⟨rest, rfl, hfrom⟩ := verifyFrom_line codec signer ends head hbody hlength heq
      have hshorter : rest.flatten.length < n := by
        rw [← hn, heq, List.length_append, List.length_cons]
        omega
      rw [hfrom, heq, lines_append hbody, verifyLines, if_neg (by simp; omega)]
      cases codec.recordFromSlice (body ++ [newline]) with
      | none => simp
      | some record =>
        simp only
        cases codec.next signer head record with
        | error e => simp
        | ok head => exact ih _ hshorter rfl
    · exact iff_of_false (fun h => hline (beginsWithLine_of_verifyFrom hempty h))
        (fun h => hline (beginsWithLine_of_verifyLines hempty h.2))

/-! ## Records -/

/-- The records in the lines of a file. -/
def records (codec : AuditCodec) (bytes : List UInt8) : List AuditRecord :=
  (lines bytes).filterMap codec.recordFromSlice

/-- What the hash of a record is of. -/
def hashInput (codec : AuditCodec) (record : AuditRecord) : List UInt8 :=
  AUDIT_DOMAIN ++ (codec.bodyToVec record.body).getD [] ++ record.signature

/-- The chain that the records of a log make. -/
def chain (codec : AuditCodec) : HashChain.Format AuditRecord AuditBody Digest where
  body := AuditRecord.body
  number := AuditBody.sequence
  previous := AuditBody.previous
  digest record := codec.sha256 (codec.hashInput record)
  origin := AuditHead.default.hash

/-- The head of a list of records. -/
def headOf (codec : AuditCodec) (records : List AuditRecord) : AuditHead :=
  ⟨(codec.chain.head records).1, (codec.chain.head records).2⟩

/-- The signature of a record is that of its body. -/
def SignatureHolds (codec : AuditCodec) (signer : PublicKey) (record : AuditRecord) : Prop :=
  ∃ bytes, codec.signable record.body = .ok bytes ∧
    codec.verify signer bytes record.signature = true

theorem signable_eq_ok {body : AuditBody} {bytes : List UInt8} :
    codec.signable body = .ok bytes ↔
      ∃ json, codec.bodyToVec body = some json ∧ bytes = AUDIT_DOMAIN ++ json := by
  cases hjson : codec.bodyToVec body with
  | none => simp [signable, hjson]
  | some json => simp [signable, hjson, eq_comm]

theorem signable_error {body : AuditBody} {e : AuditError} (h : codec.signable body = .error e) :
    e = .json := by
  cases hjson : codec.bodyToVec body with
  | none =>
    simp only [signable, hjson, Option.elim] at h
    cases h
    rfl
  | some json => simp [signable, hjson] at h

theorem recordHash_eq {record : AuditRecord} {bytes : List UInt8}
    (h : codec.signable record.body = .ok bytes) :
    codec.recordHash record = .ok (codec.chain.digest record) := by
  obtain ⟨json, hjson, rfl⟩ := signable_eq_ok.mp h
  simp [recordHash, h, bind, Except.bind, pure, Except.pure, chain, hashInput, hjson]

/-- What `verify` checks of a record. -/
theorem next_eq_ok {record : AuditRecord} : codec.next signer head record = .ok final ↔
    record.body.version = 1 ∧ record.body.sequence = head.records ∧
      record.body.previous = head.hash ∧ codec.SignatureHolds signer record ∧
      head.records + 1 < 2 ^ 64 ∧ final = ⟨head.records + 1, codec.chain.digest record⟩ := by
  -- the checks in the order of the source: the link, the signature, the count
  by_cases hlink : record.body.version ≠ 1 ∨ record.body.sequence ≠ head.records
      ∨ record.body.previous ≠ head.hash
  · simp only [next, if_pos hlink]
    refine iff_of_false (fun h => by cases h) ?_
    rintro ⟨hversion, hsequence, hprevious, -⟩
    simp [hversion, hsequence, hprevious] at hlink
  · obtain ⟨hversion, hsequence, hprevious⟩ : record.body.version = 1 ∧
        record.body.sequence = head.records ∧ record.body.previous = head.hash := by
      simpa [not_or] using hlink
    cases hbytes : codec.signable record.body with
    | error e => simp [next, hlink, hbytes, SignatureHolds, bind, Except.bind]
    | ok bytes =>
      cases hverify : codec.verify signer bytes record.signature with
      | false =>
        simp [next, hlink, hbytes, hverify, SignatureHolds, bind, Except.bind, throw, throwThe,
          MonadExceptOf.throw]
      | true =>
        cases hcount : checkedAdd 64 head.records 1 with
        | none =>
          have hfull := checkedAdd_eq_none.mp hcount
          simp [next, hlink, hbytes, hverify, hcount, SignatureHolds, bind, Except.bind,
            pure, throw,
            throwThe, MonadExceptOf.throw]
          omega
        | some records =>
          obtain ⟨hfits, rfl⟩ := checkedAdd_eq_some.mp hcount
          have hnext : codec.next signer head record =
              .ok ⟨head.records + 1, codec.chain.digest record⟩ := by
            simp [next, hbytes, hverify, hcount, recordHash_eq hbytes, bind, Except.bind, pure,
              Except.pure, hversion, hsequence, hprevious]
          rw [hnext]
          constructor
          · intro h
            cases h
            exact ⟨hversion, hsequence, hprevious, ⟨bytes, hbytes, hverify⟩, hfits, rfl⟩
          · rintro ⟨-, -, -, -, -, rfl⟩
            rfl

/-- A list of records that `verify` goes through: a signed chain. -/
structure Accepted (codec : AuditCodec) (signer : PublicKey) (records : List AuditRecord) :
    Prop where
  linked : codec.chain.Linked records
  signatures : ∀ record ∈ records, codec.SignatureHolds signer record
  versions : ∀ record ∈ records, record.body.version = 1
  counted : records.length < 2 ^ 64

theorem Accepted.nil : codec.Accepted signer [] := ⟨.nil, by simp, by simp, by simp⟩

/-- Going on from a list of records. -/
theorem accepted_snoc {records : List AuditRecord} {record : AuditRecord} :
    codec.Accepted signer (records ++ [record]) ↔ codec.Accepted signer records ∧
      codec.next signer (codec.headOf records) record =
        .ok (codec.headOf (records ++ [record])) := by
  have hhead : codec.headOf (records ++ [record]) =
      ⟨(codec.headOf records).records + 1, codec.chain.digest record⟩ := by
    simp [headOf, HashChain.Format.head]
  rw [next_eq_ok, hhead]
  constructor
  · rintro ⟨hlinked, hsignatures, hversions, hcounted⟩
    obtain ⟨hlinked, hfollows⟩ := HashChain.Format.Linked.snoc_iff.mp hlinked
    rw [List.length_append, List.length_singleton] at hcounted
    exact ⟨⟨hlinked, fun r hr => hsignatures r (by simp [hr]),
      fun r hr => hversions r (by simp [hr]), by omega⟩, hversions record (by simp),
      congrArg Prod.fst hfollows, congrArg Prod.snd hfollows, hsignatures record (by simp),
      hcounted, rfl⟩
  · rintro ⟨⟨hlinked, hsignatures, hversions, -⟩, hversion, hsequence, hprevious, hsignature,
      hcounted, -⟩
    refine ⟨hlinked.snoc (Prod.ext hsequence hprevious), ?_, ?_, by
      rw [List.length_append, List.length_singleton]; exact hcounted⟩
    · simpa [or_imp, forall_and, hsignature] using hsignatures
    · simpa [or_imp, forall_and, hversion] using hversions

theorem Accepted.of_append {records more : List AuditRecord}
    (h : codec.Accepted signer (records ++ more)) : codec.Accepted signer records := by
  induction more using List.reverseRecOn with
  | nil => simpa using h
  | append_singleton more record ih =>
    rw [← List.append_assoc] at h
    exact ih (accepted_snoc.mp h).1

/-- A line that fits, with the record in it. -/
structure Recorded (codec : AuditCodec) (line : List UInt8) (record : AuditRecord) : Prop where
  decoded : codec.recordFromSlice line = some record
  fits : line.length ≤ MAX_LINE
  whole : line.getLast? = some newline

/-- Lines of a signed chain are gone through. -/
theorem verifyLines_of_recorded {records past : List AuditRecord} {ls : List (List UInt8)}
    (hrecords : List.Forall₂ codec.Recorded ls records)
    (haccepted : codec.Accepted signer (past ++ records)) :
    codec.verifyLines signer (codec.headOf past) ls = .ok (codec.headOf (past ++ records)) := by
  induction hrecords generalizing past with
  | nil => rw [List.append_nil, verifyLines]
  | @cons line record ls records hrecorded hrecords ih =>
    rw [List.append_cons] at haccepted
    have hnext := (accepted_snoc.mp haccepted.of_append).2
    have hgood : ¬(line.length > MAX_LINE ∨ line.getLast? ≠ some newline) := by
      simp [hrecorded.fits, hrecorded.whole]
    rw [verifyLines, if_neg hgood, hrecorded.decoded]
    simp only [hnext]
    rw [ih haccepted, ← List.append_cons]

/-- Lines that are gone through are those of a signed chain. -/
theorem recorded_of_verifyLines {past : List AuditRecord} {ls : List (List UInt8)}
    (hpast : codec.Accepted signer past)
    (h : codec.verifyLines signer (codec.headOf past) ls = .ok final) :
    ∃ records, List.Forall₂ codec.Recorded ls records ∧
      codec.Accepted signer (past ++ records) ∧ final = codec.headOf (past ++ records) := by
  induction ls generalizing past with
  | nil =>
    cases h
    exact ⟨[], .nil, by rwa [List.append_nil], by rw [List.append_nil]⟩
  | cons line ls ih =>
    rw [verifyLines] at h
    split at h
    · cases h
    rename_i hgood
    obtain ⟨hfits, hwhole⟩ : line.length ≤ MAX_LINE ∧ line.getLast? = some newline := by
      simpa [not_or] using hgood
    cases hdecoded : codec.recordFromSlice line with
    | none =>
      rw [hdecoded] at h
      cases h
    | some record =>
      simp only [hdecoded] at h
      cases hnext : codec.next signer (codec.headOf past) record with
      | error e =>
        simp only [hnext] at h
        cases h
      | ok head =>
        simp only [hnext] at h
        obtain rfl : head = codec.headOf (past ++ [record]) := by
          obtain ⟨-, -, -, -, -, rfl⟩ := next_eq_ok.mp hnext
          simp [headOf, HashChain.Format.head]
        obtain ⟨records, hrecords, haccepted, hfinal⟩ := ih (accepted_snoc.mpr ⟨hpast, hnext⟩) h
        rw [← List.append_cons] at haccepted hfinal
        exact ⟨record :: records, .cons ⟨hdecoded, hfits, hwhole⟩ hrecords, haccepted, hfinal⟩

theorem records_eq {bytes : List UInt8} {records : List AuditRecord}
    (h : List.Forall₂ codec.Recorded (lines bytes) records) : codec.records bytes = records := by
  rw [AuditCodec.records]
  generalize lines bytes = ls at h
  induction h with
  | nil => rfl
  | cons hrecorded _ ih => rw [List.filterMap_cons_some hrecorded.decoded, ih]

/-- The bytes of a log that `verify` accepts. -/
structure Valid (codec : AuditCodec) (signer : PublicKey) (bytes : List UInt8) : Prop where
  recorded : List.Forall₂ codec.Recorded (lines bytes) (codec.records bytes)
  accepted : codec.Accepted signer (codec.records bytes)

/-- **What `verify` accepts**: a file that can be read to its end and whose lines hold a signed
chain; it returns the head of the chain. -/
theorem verifyLog_eq_ok {reader : LogReader} :
    codec.verifyLog reader signer = .ok head ↔ reader.ends = true ∧
      codec.Valid signer reader.content ∧ head = codec.headOf (codec.records reader.content) := by
  rw [verifyLog, verifyFrom_eq_ok]
  refine and_congr_right fun _ => ?_
  rw [show AuditHead.default = codec.headOf [] from rfl]
  constructor
  · intro h
    obtain ⟨records, hrecords, haccepted, rfl⟩ := recorded_of_verifyLines .nil h
    obtain rfl := records_eq hrecords
    exact ⟨⟨hrecords, haccepted⟩, rfl⟩
  · rintro ⟨⟨hrecords, haccepted⟩, rfl⟩
    exact verifyLines_of_recorded hrecords haccepted

end AuditCodec

/-! ## What an append does -/

namespace AuditLog

variable {codec : AuditCodec} {log : AuditLog} {event : AuditEvent} {timestampMs : Option ℕ}

/-- A record appended to an accepted file. -/
theorem valid_append {signer : PublicKey} {bytes line : List UInt8} {record : AuditRecord}
    (hvalid : codec.Valid signer bytes) (hrecorded : codec.Recorded (line ++ [newline]) record)
    (hline : newline ∉ line)
    (haccepted : codec.Accepted signer (codec.records bytes ++ [record])) :
    codec.Valid signer (bytes ++ (line ++ [newline])) ∧
      codec.records (bytes ++ (line ++ [newline])) = codec.records bytes ++ [record] := by
  have hwhole : ∀ l ∈ lines bytes, l.getLast? = some newline :=
    ((List.forall₂_and_left _ _).mp (hvalid.recorded.imp fun l r hr => ⟨hr.whole, hr⟩)).1
  have hlines : lines (bytes ++ (line ++ [newline])) = lines bytes ++ [line ++ [newline]] := by
    rw [lines_append_whole _ hwhole, lines_append hline, lines]
  have hrecords : List.Forall₂ codec.Recorded (lines (bytes ++ (line ++ [newline])))
      (codec.records bytes ++ [record]) := by
    rw [hlines]
    exact List.rel_append hvalid.recorded (.cons hrecorded .nil)
  have heq := AuditCodec.records_eq hrecords
  exact ⟨⟨heq ▸ hrecords, heq ▸ haccepted⟩, heq⟩

theorem openLog_eq_ok {reader : LogReader} (h : openLog codec reader = .ok log) :
    log.failed = false ∧ codec.verifyLog reader codec.publicKey = .ok log.head := by
  cases hverify : codec.verifyLog reader codec.publicKey with
  | error e => simp [openLog, hverify, bind, Except.bind] at h
  | ok head =>
    simp only [openLog, hverify, bind, Except.bind, pure, Except.pure] at h
    cases h
    exact ⟨rfl, rfl⟩

/-- A record is made from the head of the log, unless a write has failed. -/
theorem record_eq_ok {record : AuditRecord} {next : ℕ}
    (h : log.record codec event timestampMs = .ok (record, next)) :
    log.failed = false ∧ next = log.head.records + 1 ∧ next < 2 ^ 64 ∧ record.body.version = 1 ∧
      record.body.sequence = log.head.records ∧ record.body.previous = log.head.hash ∧
      ∃ bytes, codec.signable record.body = .ok bytes ∧ record.signature = codec.sign bytes := by
  cases hfailed : log.failed with
  | true => simp [AuditLog.record, hfailed, bind, Except.bind, throw, throwThe,
      MonadExceptOf.throw] at h
  | false =>
    cases hcount : checkedAdd 64 log.head.records 1 with
    | none =>
      simp [AuditLog.record, hfailed, hcount, bind, Except.bind, pure, throw, throwThe,
        MonadExceptOf.throw] at h
    | some count =>
      cases timestampMs with
      | none =>
        simp [AuditLog.record, hfailed, hcount, bind, Except.bind, pure, Except.pure, throw,
          throwThe, MonadExceptOf.throw] at h
      | some timestampMs =>
        simp only [AuditLog.record, hfailed, hcount, bind, Except.bind, pure, Except.pure,
          Option.elim, Bool.false_eq_true, if_false] at h
        split at h
        · cases h
        · rename_i bytes hbytes
          obtain ⟨hfits, rfl⟩ := checkedAdd_eq_some.mp hcount
          cases h
          exact ⟨rfl, rfl, hfits, rfl, rfl, rfl, bytes, hbytes, rfl⟩

theorem record_of_failed (h : log.failed = true) :
    log.record codec event timestampMs = .error .invalid := by
  simp [AuditLog.record, h, bind, Except.bind, throw, throwThe, MonadExceptOf.throw]

/-- Making a record touches no file. -/
theorem record_ne_io : log.record codec event timestampMs ≠ .error .io := by
  intro h
  simp only [AuditLog.record, bind, Except.bind, pure, Except.pure, throw, throwThe,
    MonadExceptOf.throw] at h
  split at h
  · cases h
  cases hcount : checkedAdd 64 log.head.records 1 with
  | none => simp [hcount] at h
  | some count =>
    cases timestampMs with
    | none => simp [hcount, Except.pure] at h
    | some timestampMs =>
      simp only [hcount, Option.elim, Except.pure] at h
      split at h
      · rename_i e hsignable
        cases h
        cases AuditCodec.signable_error hsignable
      · cases h

/-- Nor does making its line. -/
theorem line_ne_io {record : AuditRecord} : line codec record ≠ .error .io := by
  intro h
  cases hjson : codec.recordToVec record with
  | none => simp [line, hjson, bind, Except.bind, throw, throwThe, MonadExceptOf.throw] at h
  | some json =>
    simp only [line, hjson, bind, Except.bind, pure, Except.pure, throw, throwThe,
      MonadExceptOf.throw, Option.elim] at h
    split at h
    · cases h
    · split at h
      · rename_i e hhash
        cases h
        cases hsignable : codec.signable record.body with
        | error e =>
          simp only [AuditCodec.recordHash, hsignable, bind, Except.bind] at hhash
          cases hhash
          cases AuditCodec.signable_error hsignable
        | ok bytes =>
          rw [AuditCodec.recordHash_eq hsignable] at hhash
          cases hhash
      · cases h

theorem line_eq_ok {record : AuditRecord} {bytes : List UInt8} {hash : Digest}
    (h : line codec record = .ok (bytes, hash)) :
    ∃ json, codec.recordToVec record = some json ∧ bytes = json ++ [newline] ∧
      bytes.length ≤ MAX_LINE ∧ codec.recordHash record = .ok hash := by
  cases hjson : codec.recordToVec record with
  | none =>
    simp [line, hjson, bind, Except.bind, throw, throwThe, MonadExceptOf.throw] at h
  | some json =>
    by_cases hlong : (json ++ [newline]).length > MAX_LINE
    · simp only [line, hjson, bind, Except.bind, pure, Except.pure, Option.elim, if_pos hlong] at h
      cases h
    · simp only [line, hjson, bind, Except.bind, pure, Except.pure, Option.elim, if_neg hlong] at h
      split at h
      · cases h
      · rename_i hash hhash
        cases h
        exact ⟨json, rfl, rfl, Nat.not_lt.mp hlong, hhash⟩

/-- The three ways an append ends. -/
inductive Appended (codec : AuditCodec) (log : AuditLog) :
    Except AuditError (AuditRecord × ℕ) → Option ℕ → Except AuditError AuditHead → AuditLog →
      List UInt8 → Prop where
  /-- nothing is written -/
  | nothing {made : Except AuditError (AuditRecord × ℕ)} {failure : Option ℕ} {e : AuditError} :
      Appended codec log made failure (.error e) log []
  /-- the write fails -/
  | failed {record : AuditRecord} {next written : ℕ} {bytes : List UInt8} {hash : Digest}
      (hline : line codec record = .ok (bytes, hash)) :
      Appended codec log (.ok (record, next)) (some written) (.error .io)
        { log with failed := true } (bytes.take written)
  /-- the record is written -/
  | done {record : AuditRecord} {next : ℕ} {bytes : List UInt8} {hash : Digest}
      (hline : line codec record = .ok (bytes, hash)) :
      Appended codec log (.ok (record, next)) none (.ok ⟨next, hash⟩)
        { log with head := ⟨next, hash⟩ } bytes

theorem append_cases {failure : Option ℕ} {result : Except AuditError AuditHead} {after : AuditLog}
    {written : List UInt8} (h : log.append codec event timestampMs failure =
      (result, after, written)) :
    Appended codec log (log.record codec event timestampMs) failure result after written := by
  cases hmade : log.record codec event timestampMs with
  | error e =>
    simp only [append, hmade] at h
    cases h
    exact .nothing
  | ok made =>
    obtain ⟨record, next⟩ := made
    cases hline : line codec record with
    | error e =>
      simp only [append, hmade, hline] at h
      cases h
      exact .nothing
    | ok made =>
      cases failure with
      | none =>
        simp only [append, hmade, hline] at h
        cases h
        exact .done hline
      | some count =>
        simp only [append, hmade, hline] at h
        cases h
        exact .failed hline

end AuditLog

end SensorRemote
