import SensorRemote.FolderInvariant
import Mathlib.Data.List.DropRight

/-!
# Names of received files

The peer names the file it sends, and `valid_name` decides whether the folder may get a file of
that name: `begin` stops before its first operation otherwise. A name it takes is one component
that is none of the transfers' own and has nothing in it that the host system reads as more than
a name. Devices are the exception. Before the host system looks for a device it cuts the name at
the first dot and drops the spaces at the end of what is left; `valid_name` cuts it at the dot
only, so a device is taken when spaces stand after it.
-/

namespace SensorRemote

open Program

/-! ## What a name is -/

/-- What separates the components of a path. -/
def isSeparator (c : Char) : Bool := c = '/' ∨ c = '\\'

/-- What stands before the first dot, in upper case. -/
def stem (name : String) : List Char := (name.toList.takeWhile (· ≠ '.')).map toAsciiUppercase

/-- The host system takes the name for a device. -/
def IsDevice (name : String) : Prop :=
  (stem name).rdropWhile (· = ' ') ∈ reservedStems.map String.toList

/-- A device stands before the first dot, with spaces after it. -/
def SpacedDevice (name : String) : Prop :=
  ∃ device ∈ reservedStems.map String.toList, ∃ spaces, spaces ≠ 0 ∧
    stem name = device ++ List.replicate spaces ' '

/-- One component of a path, and only a name. -/
structure ReceivedName (name : String) : Prop where
  component : name.toList ≠ [] ∧ name.toList.splitOnP isSeparator = [name.toList]
  not_special : name ≠ "." ∧ name ≠ ".."
  not_own : ∀ (id : TransferId) (extension : String), name ≠ id.name extension
  plain : ∀ c ∈ name.toList, isControl c = false ∧ c ∉ forbiddenCharacters
  not_ending : name.toList.getLast? ≠ some '.' ∧ name.toList.getLast? ≠ some ' '

/-! ## What is taken -/

theorem validName_eq_true {name : String} : validName name = true ↔
    name.toList ≠ [] ∧ name.utf8ByteSize ≤ 180 ∧ name.toList.head? ≠ some '.' ∧
      name.toList.getLast? ≠ some '.' ∧ name.toList.getLast? ≠ some ' ' ∧
      (∀ c ∈ name.toList, isControl c = false ∧ c ∉ forbiddenCharacters) ∧
      stem name ∉ reservedStems.map String.toList := by
  simp only [validName, stem]
  split
  · rename_i hends
    apply iff_of_false Bool.false_ne_true
    rintro ⟨hne, hsize, hhead, hdot, hspace, -, -⟩
    rcases hends with hnil | hlong | hhead' | hdot' | hspace'
    · exact hne hnil
    · omega
    · exact hhead hhead'
    · exact hdot hdot'
    · exact hspace hspace'
  · rename_i hends
    simp only [not_or, not_lt] at hends
    obtain ⟨hne, hsize, hhead, hdot, hspace⟩ := hends
    split
    · rename_i hany
      apply iff_of_false Bool.false_ne_true
      rintro ⟨-, -, -, -, -, hplain, -⟩
      obtain ⟨c, hc, hbad⟩ := List.any_eq_true.mp hany
      obtain ⟨hcontrol, hforbidden⟩ := hplain c hc
      simp [hcontrol, hforbidden] at hbad
    · rename_i hany
      have hplain : ∀ c ∈ name.toList, isControl c = false ∧ c ∉ forbiddenCharacters := by
        simpa using hany
      simpa [hne, hsize, hhead, hdot, hspace] using fun _ => hplain

/-- What `valid_name` takes is a name and nothing else. -/
theorem receivedName_of_validName {name : String} (h : validName name) : ReceivedName name := by
  obtain ⟨hne, -, hhead, hdot, hspace, hplain, -⟩ := validName_eq_true.mp h
  refine ⟨⟨hne, List.splitOnP_eq_singleton fun c hc => ?_⟩, ⟨?_, ?_⟩, fun id extension heq => ?_,
    hplain, hdot, hspace⟩
  · have hforbidden := (hplain c hc).2
    have hslash : c ≠ '/' := fun h => hforbidden (by rw [h]; decide)
    have hbackslash : c ≠ '\\' := fun h => hforbidden (by rw [h]; decide)
    simp [isSeparator, hslash, hbackslash]
  · rintro rfl
    exact hhead (by decide)
  · rintro rfl
    exact hhead (by decide)
  · rw [heq] at h
    exact validName_not_own h (id.isOwn_name extension)

/-- No device has a space at its end. -/
theorem rdropWhile_device {device : List Char} (h : device ∈ reservedStems.map String.toList) :
    device.rdropWhile (· = ' ') = device := by
  have hdevices : ∀ device ∈ reservedStems.map String.toList,
      device.rdropWhile (· = ' ') = device := by decide +kernel
  exact hdevices device h

/-- The spaces that are dropped. -/
theorem exists_spaces (text : List Char) : ∃ spaces,
    text = text.rdropWhile (· = ' ') ++ List.replicate spaces ' ' := by
  refine ⟨(text.rtakeWhile (· = ' ')).length, ?_⟩
  have hspaces : text.rtakeWhile (· = ' ') =
      List.replicate (text.rtakeWhile (· = ' ')).length ' ' :=
    List.eq_replicate_iff.mpr ⟨rfl, fun c hc => by simpa using List.mem_rtakeWhile_imp hc⟩
  rw [← hspaces, List.rdropWhile_append_rtakeWhile]

theorem rdropWhile_spaces (text : List Char) (spaces : ℕ) :
    (text ++ List.replicate spaces ' ').rdropWhile (· = ' ') = text.rdropWhile (· = ' ') := by
  induction spaces with
  | zero => rw [List.replicate_zero, List.append_nil]
  | succ spaces ih =>
    rw [List.replicate_succ', ← List.append_assoc, List.rdropWhile_concat_pos _ _ _ (by decide), ih]

/-- A name that is taken is a device exactly if spaces stand after the device. -/
theorem isDevice_iff {name : String} (h : validName name) : IsDevice name ↔ SpacedDevice name := by
  obtain ⟨-, -, -, -, -, -, hstem⟩ := validName_eq_true.mp h
  constructor
  · intro hdevice
    obtain ⟨spaces, hspaces⟩ := exists_spaces (stem name)
    refine ⟨_, hdevice, spaces, ?_, hspaces⟩
    rintro rfl
    rw [List.replicate_zero, List.append_nil] at hspaces
    exact hstem (hspaces ▸ hdevice)
  · rintro ⟨device, hdevice, spaces, -, heq⟩
    rw [IsDevice, heq, rdropWhile_spaces, rdropWhile_device hdevice]
    exact hdevice

/-! ## The result -/

/-- **Names of received files.** `begin` does nothing for a name that `valid_name` does not take.
A name it takes is a name and nothing else, and it is that of no device unless it has spaces
between the device and the first dot, or its end. -/
theorem received_name_iff (name : String) :
    (¬validName name → ∀ (δ : Type) (codec : MetadataCodec δ) (consent : Consent)
      (owner : PublicKey) (manifest : Manifest δ), manifest.name = name →
        ∃ error, Receiver.begin codec consent owner manifest = throw error) ∧
    (validName name → ReceivedName name ∧
      (ReceivedName name ∧ ¬IsDevice name ↔ ¬SpacedDevice name)) := by
  refine ⟨?_, fun h => ?_⟩
  · rintro hname δ codec consent owner manifest rfl
    cases hrequire : consent.require .fileManager with
    | error e =>
      refine ⟨.permission e, ?_⟩
      simp only [Receiver.begin, requireFiles, hrequire]
      rfl
    | ok u =>
      refine ⟨.invalid, ?_⟩
      have hcheck : ¬(validName manifest.name ∧ manifest.size ≤ MAX_FILE_SIZE) :=
        fun hboth => hname hboth.1
      simp only [Receiver.begin, requireFiles, hrequire, Fallible.check, if_neg hcheck]
      rfl
  · have hreceived := receivedName_of_validName h
    refine ⟨hreceived, ?_⟩
    rw [isDevice_iff h]
    exact ⟨fun hboth => hboth.2, fun hspaced => ⟨hreceived, hspaced⟩⟩

/-- A device that is taken. -/
theorem device_taken :
    validName "CON .txt" = true ∧ ¬(ReceivedName "CON .txt" ∧ ¬IsDevice "CON .txt") := by
  have hdevice : IsDevice "CON .txt" := by
    simp only [IsDevice]
    decide +kernel
  exact ⟨by decide +kernel, fun h => h.2 hdevice⟩

theorem report_not_spaced : ¬SpacedDevice "con report.txt" := by
  rintro ⟨device, -, spaces, hspaces, hstem⟩
  obtain ⟨spaces, rfl⟩ := Nat.exists_eq_succ_of_ne_zero hspaces
  have hlast := congrArg List.getLast? hstem
  rw [List.replicate_succ', ← List.append_assoc, List.getLast?_concat] at hlast
  exact absurd hlast (by decide +kernel)

/-- What has more than spaces after the device is a name. -/
theorem report_received :
    validName "con report.txt" = true ∧ ReceivedName "con report.txt" ∧
      ¬IsDevice "con report.txt" := by
  have hvalid : validName "con report.txt" = true := by decide +kernel
  have hboth := ((received_name_iff "con report.txt").2 hvalid).2.mpr report_not_spaced
  exact ⟨hvalid, hboth⟩

end SensorRemote
