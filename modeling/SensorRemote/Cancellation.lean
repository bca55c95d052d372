import SensorRemote.Lib.Program

/-!
# Cancelling a worker

The worker of the desktop application registers its socket in a `Control` (`worker.rs`), and other
threads cancel the worker through it: they set a flag first, and shut the registered socket
down second. The worker looks at the flag while it has the lock of the socket. So whoever comes
second shuts the socket down, and no socket is registered once the flag was seen.

Any number of threads call any of the methods here, and none is kept from registering.
-/

namespace SensorRemote

open Program Transition

/-- A call on a `Control`. -/
inductive ControlCall (σ : Type) where
  | socket (stream : σ)
  | closeSocket
  | abort
  | stop
  /-- the thread that `stop` spawns -/
  | delayedAbort
  | sendRemote

/-- What `try_send` returns. -/
inductive TrySend where
  | sent
  | disconnected
  | full
  deriving DecidableEq

/-- The steps of the calls: atomic accesses and locked sections. That of `socket` is in three
steps, as the flag is read inside it. -/
inductive ControlOp (σ : Type) : Type → Type where
  /-- the next call of the thread, and whether the flag is set by then -/
  | next : ControlOp σ (ControlCall σ × Bool)
  | loadCancelled : ControlOp σ Bool
  | storeCancelled : ControlOp σ Unit
  | loadLocalStop : ControlOp σ Bool
  | swapLocalStop : ControlOp σ Bool
  /-- `set_clipboard_enabled(false)` -/
  | disableClipboard : ControlOp σ Unit
  /-- take the sender out, if there is one -/
  | takeSender : ControlOp σ Bool
  /-- clone the sender, if there is one -/
  | cloneSender : ControlOp σ Bool
  | trySend : ControlOp σ TrySend
  | spawn : ControlOp σ Unit
  /-- whether 750 ms are over -/
  | elapsed : ControlOp σ Bool
  /-- `ConnectionAbort::from_stream`, if it succeeds -/
  | fromStream (stream : σ) : ControlOp σ Bool
  | lockSocket : ControlOp σ Unit
  /-- store the handle and unlock -/
  | register (stream : σ) : ControlOp σ Unit
  /-- abort the handle that is not stored, and unlock -/
  | refuse (stream : σ) : ControlOp σ Unit
  /-- the locked section of `close_socket`: take the handle out and abort it -/
  | takeSocket : ControlOp σ Unit
  /-- the locked section of `send_remote`: abort the handle -/
  | abortSocket : ControlOp σ Unit
  /-- `socket` returns -/
  | answers (stream : σ) (late : Bool) (result : Except String Unit) : ControlOp σ Unit
  /-- a call that sets the flag returns -/
  | cancels : ControlOp σ Unit

namespace Control

variable {σ : Type}

/-- `Control::abort`, up to its end. -/
def abort : Prog (ControlOp σ) Unit := do
  Prog.perform .storeCancelled
  Prog.perform .takeSocket
  Prog.perform .cancels

/-- `Control::stop`. -/
def stop : Prog (ControlOp σ) Unit := do
  if ← Prog.perform .swapLocalStop then abort
  else
    Prog.perform .disableClipboard
    if ← Prog.perform .takeSender then
      match ← Prog.perform .trySend with
      | .sent => Prog.perform .spawn
      | _ => abort
    else abort

/-- The thread that `stop` spawns. -/
def delayedAbort : Prog (ControlOp σ) Unit := do
  Prog.forever () fun _ => do
    if ← Prog.perform .loadCancelled then return .inr ()
    if ← Prog.perform .elapsed then return .inr ()
    return .inl ()
  abort

/-- `Control::send_remote`. -/
def sendRemote : Prog (ControlOp σ) Unit := do
  if ← Prog.perform .loadLocalStop then return ()
  if ← Prog.perform .loadCancelled then return ()
  if ← Prog.perform .cloneSender then
    match ← Prog.perform .trySend with
    | .full =>
      Prog.perform .storeCancelled
      Prog.perform .abortSocket
      Prog.perform .cancels
    | _ => return ()
  else return ()

/-- `Control::socket`. -/
def socket (stream : σ) (late : Bool) : Prog (ControlOp σ) Unit := do
  if ← Prog.perform (.fromStream stream) then
    Prog.perform .lockSocket
    if ← Prog.perform .loadCancelled then
      Prog.perform (.refuse stream)
      Prog.perform (.answers stream late (.error "Stopped locally"))
    else
      Prog.perform (.register stream)
      Prog.perform (.answers stream late (.ok ()))
  else Prog.perform (.answers stream late (.error "the stream cannot be cloned"))

/-- A call. -/
def carryOut : ControlCall σ × Bool → Prog (ControlOp σ) Unit
  | (.socket stream, late) => socket stream late
  | (.closeSocket, _) => Prog.perform .takeSocket
  | (.abort, _) => abort
  | (.stop, _) => stop
  | (.delayedAbort, _) => delayedAbort
  | (.sendRemote, _) => sendRemote

/-- A thread: one call after the other. -/
def calls : Prog (ControlOp σ) Unit :=
  Prog.forever () fun _ => do
    let call ← Prog.perform .next
    carryOut call
    return .inl ()

end Control

/-! ## The world of a control -/

/-- What `socket` has returned. -/
structure SocketAnswer (σ : Type) where
  stream : σ
  /-- whether the flag was set when the stream was offered -/
  late : Bool
  result : Except String Unit

/-- A `Control`, as far as it is about cancelling, and its history. -/
structure ControlWorld (ι σ : Type) where
  cancelled : Bool
  localStop : Bool
  clipboardEnabled : Bool
  /-- what is registered in `socket` -/
  slot : Option σ
  /-- who is in the locked section of `socket` -/
  holder : Option ι
  /-- the streams that were shut down -/
  shut : Set σ
  /-- the stream registered last -/
  last : Option σ
  /-- what is registered was shut down after the flag was set -/
  closed : Bool
  /-- a call that sets the flag has returned -/
  cancelReturned : Bool
  answers : List (SocketAnswer σ)

namespace ControlWorld

variable {ι σ : Type}

/-- The streams shut down when what is registered is. -/
def shutSlot (w : ControlWorld ι σ) : Set σ := {stream | stream ∈ w.shut ∨ w.slot = some stream}

/-- What a step of a thread may answer, and what it does. -/
def Does (i : ι) (w : ControlWorld ι σ) : {β : Type} → ControlOp σ β → β → ControlWorld ι σ → Prop
  | _, .next, (_, late), w' => late = w.cancelled ∧ w' = w
  | _, .loadCancelled, b, w' => b = w.cancelled ∧ w' = w
  | _, .storeCancelled, (), w' => w' = { w with cancelled := true }
  | _, .loadLocalStop, b, w' => b = w.localStop ∧ w' = w
  | _, .swapLocalStop, b, w' => b = w.localStop ∧ w' = { w with localStop := true }
  | _, .disableClipboard, (), w' => w' = { w with clipboardEnabled := false }
  | _, .takeSender, _, w' | _, .cloneSender, _, w' | _, .trySend, _, w' | _, .spawn, _, w'
  | _, .elapsed, _, w' | _, .fromStream _, _, w' => w' = w
  | _, .lockSocket, (), w' => w.holder = none ∧ w' = { w with holder := some i }
  | _, .register stream, (), w' => w.holder = some i ∧
      w' = { w with slot := some stream, last := some stream, holder := none }
  | _, .refuse stream, (), w' => w.holder = some i ∧
      w' = { w with shut := insert stream w.shut, holder := none }
  | _, .takeSocket, (), w' => w.holder = none ∧
      w' = { w with shut := w.shutSlot, slot := none, closed := w.closed || w.cancelled }
  | _, .abortSocket, (), w' => w.holder = none ∧
      w' = { w with shut := w.shutSlot, closed := w.closed || w.cancelled }
  | _, .answers stream late result, (), w' =>
      w' = { w with answers := w.answers ++ [⟨stream, late, result⟩] }
  | _, .cancels, (), w' => w' = { w with cancelReturned := true }

/-- A new control. -/
structure Fresh (w : ControlWorld ι σ) : Prop where
  cancelled : w.cancelled = false
  slot : w.slot = none
  holder : w.holder = none
  last : w.last = none
  closed : w.closed = false
  cancelReturned : w.cancelReturned = false
  answers : w.answers = []

end ControlWorld

/-- A control as a machine. Its threads end with the process only. -/
def controlMachine (ι σ : Type) : Machine (ControlOp σ) ι (ControlWorld ι σ) where
  step := ControlWorld.Does
  vanish _ _ _ := False

/-- A control and the threads that call it. -/
def controlSystem (ι σ : Type) [DecidableEq ι] : LTS (Pool (ControlOp σ) ι (ControlWorld ι σ)) ι :=
  pool (controlMachine ι σ) (fun _ => Control.calls) ControlWorld.Fresh

/-! ## The flag and the socket -/

namespace ControlWorld

variable {ι σ β : Type} {i j : ι} {w w' : ControlWorld ι σ} {o : ControlOp σ β} {b : β}

/-- How the flag and the socket go together, at every moment. -/
structure Sound (w : ControlWorld ι σ) : Prop where
  cancelled : w.closed = true → w.cancelled = true
  closed : w.cancelReturned = true → w.closed = true
  slot_shut : w.closed = true → ∀ stream, w.slot = some stream → stream ∈ w.shut
  last_shut : ∀ stream, w.last = some stream → stream ∈ w.shut ∨ w.slot = some stream
  refused : ∀ a ∈ w.answers, a.late = true → ∃ e, a.result = .error e

/-- A step that thread `j` does not notice. -/
structure Spares (j : ι) (w w' : ControlWorld ι σ) : Prop where
  cancelled : w.cancelled = true → w'.cancelled = true
  closed : w.closed = true → w'.closed = true
  /-- nobody closes the socket in the locked section of another -/
  holder : w.holder = some j → w'.holder = some j ∧ w'.closed = w.closed

/-- What has to hold before an operation. -/
def Ready (w : ControlWorld ι σ) : {β : Type} → ControlOp σ β → Prop
  | _, .register _ => w.closed = false
  | _, .answers _ late result => late = true → ∃ e, result = .error e
  | _, .cancels => w.closed = true
  | _, _ => True

theorem Spares.refl (j : ι) (w : ControlWorld ι σ) : w.Spares j w :=
  ⟨id, id, fun h => ⟨h, rfl⟩⟩

/-- The thread in the locked section is the only one that may close the socket. -/
theorem Spares.of_unlocked (hfree : w.holder = none) (hcancelled : w'.cancelled = w.cancelled)
    (hclosed : w.closed = true → w'.closed = true) : w.Spares j w' where
  cancelled h := hcancelled.trans h
  closed := hclosed
  holder h := by
    rw [hfree] at h
    cases h

/-- A step in the locked section. -/
theorem Spares.of_locked (hmine : w.holder = some i) (hj : j ≠ i)
    (hcancelled : w'.cancelled = w.cancelled) (hclosed : w'.closed = w.closed) :
    w.Spares j w' where
  cancelled h := hcancelled.trans h
  closed h := hclosed.trans h
  holder h := by
    rw [hmine] at h
    exact absurd (Option.some.inj h).symm hj

/-- A step outside of it that does not close the socket. -/
theorem Spares.of_holder (hholder : w'.holder = w.holder)
    (hcancelled : w.cancelled = true → w'.cancelled = true) (hclosed : w'.closed = w.closed) :
    w.Spares j w' where
  cancelled := hcancelled
  closed h := hclosed.trans h
  holder h := ⟨hholder.trans h, hclosed⟩

/-- Whatever is registered when the flag is set is shut down with it. -/
theorem Sound.close (hw : w.Sound) {slot : Option σ} (hslot : slot = w.slot ∨ slot = none) :
    Sound { w with shut := w.shutSlot, slot, closed := w.closed || w.cancelled } where
  cancelled h := by
    rcases Bool.or_eq_true_iff.mp h with h | h
    · exact hw.cancelled h
    · exact h
  closed h := Bool.or_eq_true_iff.mpr (.inl (hw.closed h))
  slot_shut _ stream hs := by
    rcases hslot with rfl | rfl
    · exact .inr hs
    · cases hs
  last_shut stream hs := .inl (hw.last_shut stream hs)
  refused := hw.refused

/-- **One step** keeps the flag and the socket together, and the others do not notice it. -/
theorem Does.keeps (hw : w.Sound) (hready : w.Ready o) (h : Does i w o b w') :
    w'.Sound ∧ ∀ j, j ≠ i → w.Spares j w' := by
  cases o with
  | next | loadCancelled | loadLocalStop =>
    obtain ⟨-, rfl⟩ := h
    exact ⟨hw, fun j _ => .refl j _⟩
  | takeSender | cloneSender | trySend | spawn | elapsed | fromStream =>
    cases h
    exact ⟨hw, fun j _ => .refl j _⟩
  | storeCancelled =>
    cases h
    refine ⟨{ hw with cancelled := fun _ => rfl }, fun j _ => .of_holder rfl (fun _ => rfl) rfl⟩
  | swapLocalStop =>
    obtain ⟨-, rfl⟩ := h
    exact ⟨{ hw with }, fun j _ => .of_holder rfl id rfl⟩
  | disableClipboard =>
    cases h
    exact ⟨{ hw with }, fun j _ => .of_holder rfl id rfl⟩
  | lockSocket =>
    obtain ⟨hfree, rfl⟩ := h
    exact ⟨{ hw with }, fun j _ => .of_unlocked hfree rfl id⟩
  | register stream =>
    obtain ⟨hmine, rfl⟩ := h
    -- the socket is open, so nothing that is registered has to be shut down already
    refine ⟨{ hw with slot_shut := ?_, last_shut := ?_ }, fun j hj => .of_locked hmine hj rfl rfl⟩
    · intro hclosed
      rw [hready] at hclosed
      cases hclosed
    · exact fun _ hlast => .inr hlast
  | refuse stream =>
    obtain ⟨hmine, rfl⟩ := h
    refine ⟨{ hw with slot_shut := ?_, last_shut := ?_ }, fun j hj => .of_locked hmine hj rfl rfl⟩
    · exact fun hclosed other hs => .inr (hw.slot_shut hclosed other hs)
    · exact fun other hs => (hw.last_shut other hs).imp .inr id
  | takeSocket =>
    obtain ⟨hfree, rfl⟩ := h
    exact ⟨hw.close (.inr rfl), fun j _ =>
      .of_unlocked hfree rfl (Bool.or_eq_true_iff.mpr <| .inl ·)⟩
  | abortSocket =>
    obtain ⟨hfree, rfl⟩ := h
    exact ⟨hw.close (.inl rfl), fun j _ =>
      .of_unlocked hfree rfl (Bool.or_eq_true_iff.mpr <| .inl ·)⟩
  | answers stream late result =>
    cases h
    refine ⟨{ hw with refused := ?_ }, fun j _ => .of_holder rfl id rfl⟩
    intro a ha hlate
    rcases List.mem_append.mp ha with ha | ha
    · exact hw.refused a ha hlate
    · obtain rfl := List.mem_singleton.mp ha
      exact hready hlate
  | cancels =>
    cases h
    exact ⟨{ hw with closed := fun _ => hready }, fun j _ => .of_holder rfl id rfl⟩

/-- What the threads of a control keep between them. -/
def regime (ι σ : Type) : Regime (controlMachine ι σ) where
  inv := Sound
  guar i w w' := ∀ j, j ≠ i → w.Spares j w'
  rely j w w' := w.Spares j w'
  compatible _ j _ _ hij _ _ hguar := hguar j hij.symm
  vanishing _ _ _ _ hvanish := hvanish.elim

/-- An operation whose condition is met. -/
theorem correct {P : ControlWorld ι σ → Prop} {R : β → ControlWorld ι σ → Prop}
    (hready : ∀ w, w.Sound → P w → w.Ready o)
    (hR : ∀ w b w', w.Sound → P w → Does i w o b w' → R b w') :
    (regime ι σ).Correct i P o R := by
  intro w b w' hw hP hM
  obtain ⟨hw', hguar⟩ := Does.keeps hw (hready w hw hP) hM
  exact ⟨hw', hguar, hR w b w' hw hP hM⟩

theorem stable_true : (regime ι σ).Stable i fun _ => True := fun _ _ _ _ _ _ => trivial

theorem stable_cancelled : (regime ι σ).Stable i fun w => w.cancelled = true :=
  fun _ _ _ _ h hrely => hrely.cancelled h

theorem stable_closed : (regime ι σ).Stable i fun w => w.closed = true :=
  fun _ _ _ _ h hrely => hrely.closed h

theorem stable_late (late : Bool) :
    (regime ι σ).Stable i fun w => late = true → w.cancelled = true :=
  fun _ _ _ _ h hrely hlate => hrely.cancelled (h hlate)

theorem stable_locked : (regime ι σ).Stable i fun w => w.holder = some i :=
  fun _ _ _ _ h hrely => (hrely.holder h).1

/-- While a thread is in the locked section, an open socket stays open. -/
theorem stable_open :
    (regime ι σ).Stable i fun w => w.holder = some i ∧ w.closed = false := by
  rintro w w' - - ⟨hmine, hopen⟩ hrely
  obtain ⟨hmine', hsame⟩ := hrely.holder hmine
  exact ⟨hmine', hsame.trans hopen⟩

/-- A single operation that asks for nothing. -/
theorem outline_free (hready : ∀ w : ControlWorld ι σ, w.Ready o) :
    Outline (regime ι σ) i (fun _ => True) (Prog.perform o) fun _ _ => True :=
  .perform stable_true (correct (fun w _ _ => hready w) fun _ _ _ _ _ _ => trivial)
    fun _ => stable_true

/-- The flag first, the socket second: then the socket is closed. -/
theorem outline_cancel {close : ControlOp σ Unit} (hready : ∀ w : ControlWorld ι σ, w.Ready close)
    (hclose : ∀ w w', w.cancelled = true → Does i w close () w' → w'.closed = true) :
    Outline (regime ι σ) i (fun _ => True) (do
      Prog.perform .storeCancelled
      Prog.perform close
      Prog.perform .cancels) fun _ _ => True := by
  refine .op (R := fun _ w => w.cancelled = true) stable_true
    (correct (fun _ _ _ => trivial) ?_) fun _ => ?_
  · rintro w ⟨⟩ w' - - rfl
    rfl
  refine .op (R := fun _ w => w.closed = true) stable_cancelled
    (correct (fun w _ _ => hready w) ?_) fun _ => ?_
  · intro w _ w' _ hcancelled hdoes
    exact hclose w w' hcancelled hdoes
  exact .perform stable_closed (correct (fun _ _ hclosed => hclosed) fun _ _ _ _ _ _ => trivial)
    fun _ => stable_true

theorem outline_abort :
    Outline (regime ι σ) i (fun _ => True) Control.abort fun _ _ => True := by
  refine outline_cancel (fun _ => trivial) ?_
  rintro w w' hcancelled ⟨-, rfl⟩
  exact Bool.or_eq_true_iff.mpr (.inr hcancelled)

theorem outline_stop :
    Outline (regime ι σ) i (fun _ => True) Control.stop fun _ _ => True := by
  refine .bind (outline_free fun _ => trivial) fun again => ?_
  split
  · exact outline_abort
  refine .bind (outline_free fun _ => trivial) fun _ => ?_
  refine .bind (outline_free fun _ => trivial) fun sender => ?_
  split
  · refine .bind (outline_free fun _ => trivial) fun answer => ?_
    cases answer with
    | sent => exact outline_free fun _ => trivial
    | disconnected | full => exact outline_abort
  · exact outline_abort

theorem outline_delayedAbort :
    Outline (regime ι σ) i (fun _ => True) Control.delayedAbort fun _ _ => True := by
  have hdone (s : Unit ⊕ Unit) : Outline (regime ι σ) i (fun _ => True) (.ret s)
      (Sum.elim (fun _ _ => True) fun _ _ => True) :=
    .ret stable_true fun _ _ _ => by cases s <;> trivial
  refine .bind (.forever (L := fun _ _ => True) (fun _ => ?_) fun _ => stable_true)
    fun _ => outline_abort
  refine .bind (outline_free fun _ => trivial) fun cancelled => ?_
  cases cancelled with
  | true => exact hdone _
  | false =>
    refine .bind (outline_free fun _ => trivial) fun elapsed => ?_
    cases elapsed <;> exact hdone _

/-- `send_remote` closes the socket if it sets the flag. -/
theorem outline_sendRemote :
    Outline (regime ι σ) i (fun _ => True) Control.sendRemote fun _ _ => True := by
  have hdone : Outline (regime ι σ) i (fun _ => True) (.ret ()) fun _ _ => True :=
    .ret stable_true fun _ _ _ => trivial
  refine .bind (outline_free fun _ => trivial) fun stopped => ?_
  cases stopped with
  | true => exact hdone
  | false =>
    refine .bind (outline_free fun _ => trivial) fun cancelled => ?_
    cases cancelled with
    | true => exact hdone
    | false =>
      refine .bind (outline_free fun _ => trivial) fun sender => ?_
      cases sender with
      | false => exact hdone
      | true =>
        refine .bind (outline_free fun _ => trivial) fun answer => ?_
        cases answer with
        | sent | disconnected => exact hdone
        | full =>
          refine outline_cancel (fun _ => trivial) ?_
          rintro w w' hcancelled ⟨-, rfl⟩
          exact Bool.or_eq_true_iff.mpr (.inr hcancelled)

/-- `socket` sees the flag in the locked section, or the socket is open until it is left. -/
theorem outline_socket (stream : σ) (late : Bool) :
    Outline (regime ι σ) i (fun w => late = true → w.cancelled = true)
      (Control.socket stream late) fun _ _ => True := by
  have hanswer {result : Except String Unit} (hresult : late = true → ∃ e, result = .error e) :
      Outline (regime ι σ) i (fun _ => True)
        (Prog.perform (.answers stream late result)) fun _ _ => True :=
    .perform stable_true (correct (fun _ _ _ => hresult) fun _ _ _ _ _ _ => trivial)
      fun _ => stable_true
  refine .op (R := fun _ w => late = true → w.cancelled = true) (stable_late late)
    (correct (fun _ _ _ => trivial) ?_) fun cloned => ?_
  · rintro w _ w' - hlate rfl
    exact hlate
  cases cloned with
  | false => exact (hanswer fun _ => ⟨_, rfl⟩).pre (stable_late late) fun _ _ _ => trivial
  | true =>
  refine .op (R := fun _ w => w.holder = some i ∧ (late = true → w.cancelled = true))
    (stable_late late) (correct (fun _ _ _ => trivial) ?_) fun _ => ?_
  · rintro w ⟨⟩ w' - hlate ⟨-, rfl⟩
    exact ⟨rfl, hlate⟩
  refine .op (R := fun seen w => seen = false → late = false ∧ w.holder = some i ∧
    w.closed = false) ?_ (correct (fun _ _ _ => trivial) ?_) fun seen => ?_
  · intro w w' hw hw' h hrely
    exact ⟨stable_locked w w' hw hw' h.1 hrely, stable_late late w w' hw hw' h.2 hrely⟩
  · rintro w seen w' hw ⟨hmine, hlate⟩ ⟨rfl, rfl⟩ hseen
    rw [hseen] at hlate
    refine ⟨Bool.eq_false_iff.mpr fun h => Bool.false_ne_true (hlate h), hmine, ?_⟩
    -- a closed socket would have been seen
    exact Bool.eq_false_iff.mpr fun hclosed =>
      Bool.false_ne_true (hseen.symm.trans (hw.cancelled hclosed))
  cases seen with
  | true =>
    refine .pre (P := fun _ => True) (fun _ _ _ _ _ _ h => by cases h) (fun _ _ _ => trivial) ?_
    exact .op (R := fun _ _ => True) stable_true
      (correct (fun _ _ _ => trivial) fun _ _ _ _ _ _ => trivial) fun _ => hanswer fun _ => ⟨_, rfl⟩
  | false =>
    refine .pre (P := fun w => late = false ∧ w.holder = some i ∧ w.closed = false)
      ?_ (fun _ _ h => h rfl) (.given (fun _ => stable_open) fun hearly => ?_)
    · intro w w' hw hw' h hrely _
      exact ⟨(h rfl).1, stable_open w w' hw hw' (h rfl).2 hrely⟩
    refine .op (R := fun _ _ => True) stable_open
      (correct (fun _ _ h => h.2) fun _ _ _ _ _ _ => trivial) fun _ => hanswer fun hlate => ?_
    rw [hearly] at hlate
    cases hlate

/-- Whatever a thread calls. -/
theorem outline_carryOut : (call : ControlCall σ × Bool) → Outline (regime ι σ) i
    (fun w => call.2 = true → w.cancelled = true) (Control.carryOut call) fun _ _ => True
  | (.socket stream, late) => outline_socket stream late
  | (.closeSocket, late) =>
    .pre (P := fun _ => True) (stable_late late) (fun _ _ _ => trivial)
      (outline_free fun _ => trivial)
  | (.abort, late) => outline_abort.pre (stable_late late) fun _ _ _ => trivial
  | (.stop, late) => outline_stop.pre (stable_late late) fun _ _ _ => trivial
  | (.delayedAbort, late) => outline_delayedAbort.pre (stable_late late) fun _ _ _ => trivial
  | (.sendRemote, late) => outline_sendRemote.pre (stable_late late) fun _ _ _ => trivial

theorem outline_calls :
    Outline (regime ι σ) i (fun _ => True) Control.calls fun _ _ => True := by
  refine .forever (L := fun _ _ => True) (fun _ => ?_) fun _ => stable_true
  refine .op (R := fun call w => call.2 = true → w.cancelled = true) stable_true
    (correct (fun _ _ _ => trivial) ?_) fun call => ?_
  · rintro w ⟨call, late⟩ w' - - ⟨rfl, rfl⟩
    exact id
  · exact (outline_carryOut call).bind fun _ => .ret stable_true fun _ _ _ => trivial

theorem Fresh.sound (hw : w.Fresh) : w.Sound where
  cancelled h := by
    rw [hw.closed] at h
    cases h
  closed h := by
    rw [hw.cancelReturned] at h
    cases h
  slot_shut h := by
    rw [hw.closed] at h
    cases h
  last_shut stream h := by
    rw [hw.last] at h
    cases h
  refused a h := by
    rw [hw.answers] at h
    cases h

end ControlWorld

variable {ι σ : Type} [DecidableEq ι]

/-- **No socket survives cancelling.** However the threads interleave: once a call that sets the
flag has returned, the stream registered last is shut down; and `socket` fails for every stream
that is offered when the flag is set. -/
theorem no_socket_survives {s : Pool (ControlOp σ) ι (ControlWorld ι σ)}
    (h : (controlSystem ι σ).Reachable s) :
    (s.world.cancelReturned = true → ∀ stream, s.world.last = some stream → stream ∈ s.world.shut) ∧
    ∀ a ∈ s.world.answers, a.late = true → ∃ e, a.result = .error e := by
  have hinit (w : ControlWorld ι σ) (hw : w.Fresh) :
      (ControlWorld.regime ι σ).inv w ∧ ∀ _ : ι, True := ⟨hw.sound, fun _ => trivial⟩
  have hsound : s.world.Sound :=
    (Outline.sound (fun _ => ControlWorld.outline_calls) hinit h).1
  refine ⟨fun hreturned stream hlast => ?_, hsound.refused⟩
  have hclosed := hsound.closed hreturned
  exact (hsound.last_shut stream hlast).elim id (hsound.slot_shut hclosed stream)

namespace LateRegistration

/-- A worker (`true`) and a thread that cancels (`false`). -/
def start : Pool (ControlOp ℕ) Bool (ControlWorld Bool ℕ) where
  world :=
    { cancelled := false, localStop := false, clipboardEnabled := false, slot := none,
      holder := none, shut := ∅, last := none, closed := false, cancelReturned := false,
      answers := [] }
  threads _ := some Control.calls

theorem calls_next (call : ControlCall ℕ × Bool) :
    Control.calls.Step .next call ((Control.carryOut call).bind fun _ => Control.calls) := by
  apply Prog.Step.loop
  simp only [Prog.bind_eq, Prog.perform_bind, Prog.op_bind, Prog.bind_assoc]
  exact Prog.Step.op ControlOp.next
    (fun call => (Control.carryOut call).bind fun _ => Control.calls) call

/-- The flag is set between the worker's look at it and the registration. -/
theorem shut_down : ∃ s, (controlSystem Bool ℕ).Reachable s ∧ s.world.last = some 7 ∧
    7 ∈ s.world.shut := by
  have hstart : (controlSystem Bool ℕ).Reachable start :=
    .init ⟨⟨rfl, rfl, rfl, rfl, rfl, rfl, rfl⟩, rfl⟩
  have hsocket := Pool.reachable_acts hstart true rfl (calls_next (.socket 7, false)) ⟨rfl, rfl⟩
  have hcloned := Pool.reachable_op hsocket true (.fromStream 7) true rfl rfl
  have hlocked := Pool.reachable_op hcloned true .lockSocket () rfl ⟨rfl, rfl⟩
  have hlooked := Pool.reachable_op hlocked true .loadCancelled false rfl ⟨rfl, rfl⟩
  have habort := Pool.reachable_acts hlooked false rfl (calls_next (.abort, false)) ⟨rfl, rfl⟩
  have hset := Pool.reachable_op habort false .storeCancelled () rfl rfl
  have hregistered := Pool.reachable_op hset true (.register 7) () rfl ⟨rfl, rfl⟩
  have hclosed := Pool.reachable_op hregistered false .takeSocket () rfl ⟨rfl, rfl⟩
  have hreturned := Pool.reachable_op hclosed false .cancels () rfl rfl
  exact ⟨_, hreturned, rfl, (no_socket_survives hreturned).1 rfl 7 rfl⟩

end LateRegistration

end SensorRemote
