import Mathlib.Data.List.Basic
import Mathlib.Data.List.DropRight

/-!
# URI references

A URI reference is split into its parts as RFC 3986 (appendix B) splits it. A URI with an authority
is determined by its parts, so that a change of one of them is a change of its text, and the other
way round.

Splitting goes from the left: scheme, authority, path, query and fragment, each up to the first
character that ends it. Putting together is the other direction (`Parts.text`), and each of the two
undoes the other for a URI whose parts have no character in them that would end them. On that rest
the lemmas about editing a text without splitting it: putting something behind it, and replacing its
scheme.
-/

namespace Uri

/-- The parts of a URI reference. -/
structure Parts where
  scheme : Option (List Char)
  authority : Option (List Char)
  path : List Char
  query : Option (List Char)
  fragment : Option (List Char)
  deriving DecidableEq

/-! ## Splitting -/

/-- What comes before the first of the stops, and the rest from there on. -/
def part (stops text : List Char) : List Char × List Char :=
  (text.takeWhile (· ∉ stops), text.dropWhile (· ∉ stops))

/-- What follows a mark. -/
def marked (mark : Char) : List Char → Option (List Char)
  | [] => none
  | c :: text => if c = mark then some text else none

/-- The scheme and what follows its colon, if there is one before any slash. -/
def splitScheme (text : List Char) : Option (List Char) × List Char :=
  let (scheme, rest) := part [':', '/', '?', '#'] text
  match marked ':' rest with
  | none => (none, text)
  | some rest => if scheme = [] then (none, text) else (some scheme, rest)

/-- The authority and what follows it, if the text begins with two slashes. -/
def splitAuthority (text : List Char) : Option (List Char) × List Char :=
  match (marked '/' text).bind (marked '/') with
  | none => (none, text)
  | some text =>
    let (authority, rest) := part ['/', '?', '#'] text
    (some authority, rest)

/-- The query and what follows it, if there is a question mark before the fragment. -/
def splitQuery (text : List Char) : Option (List Char) × List Char :=
  match marked '?' text with
  | none => (none, text)
  | some text =>
    let (query, rest) := part ['#'] text
    (some query, rest)

/-- The parts of a text. -/
def split (text : List Char) : Parts :=
  let (scheme, rest) := splitScheme text
  let (authority, rest) := splitAuthority rest
  let (path, rest) := part ['?', '#'] rest
  let (query, rest) := splitQuery rest
  ⟨scheme, authority, path, query, marked '#' rest⟩

/-- The host of an authority: what is left without the user and the port. -/
def hostOf (authority : List Char) : List Char :=
  let hostPort := authority.rtakeWhile (· ≠ '@')
  if hostPort.head? = some '[' then hostPort.takeWhile (· ≠ ']') ++ [']']
  else hostPort.takeWhile (· ≠ ':')

/-! ## Putting together -/

namespace Parts

/-- The text of the query, with its mark. -/
def queryText (parts : Parts) : List Char := parts.query.elim [] ('?' :: ·)

/-- The text of the fragment, with its mark. -/
def fragmentText (parts : Parts) : List Char := parts.fragment.elim [] ('#' :: ·)

/-- The text behind the scheme. -/
def hierText (parts : Parts) : List Char :=
  parts.authority.elim [] ("//".toList ++ ·) ++
    (parts.path ++ (parts.queryText ++ parts.fragmentText))

/-- The text of a URI reference with these parts. -/
def text (parts : Parts) : List Char := parts.scheme.elim [] (· ++ [':']) ++ parts.hierText

/-- The parts of a URI with an authority. -/
structure Absolute (parts : Parts) (scheme authority : List Char) : Prop where
  scheme_eq : parts.scheme = some scheme
  scheme_ne_nil : scheme ≠ []
  scheme_plain : ∀ c ∈ scheme, c ∉ [':', '/', '?', '#']
  authority_eq : parts.authority = some authority
  authority_plain : ∀ c ∈ authority, c ∉ ['/', '?', '#']
  path_begins : ∀ c ∈ parts.path.head?, c = '/'
  path_plain : ∀ c ∈ parts.path, c ∉ ['?', '#']
  query_plain : ∀ query ∈ parts.query, ∀ c ∈ query, c ∉ ['#']

end Parts

section Part

variable {stops text piece rest : List Char}

/-- A piece without stops ends where a stop follows. -/
theorem part_append (hpiece : ∀ c ∈ piece, c ∉ stops) (hrest : ∀ c ∈ rest.head?, c ∈ stops) :
    part stops (piece ++ rest) = (piece, rest) := by
  have hplain : ∀ c ∈ piece, decide (c ∉ stops) = true := fun c hc => decide_eq_true (hpiece c hc)
  have hstop : rest.takeWhile (· ∉ stops) = [] ∧ rest.dropWhile (· ∉ stops) = rest := by
    cases rest with
    | nil => exact ⟨rfl, rfl⟩
    | cons c rest =>
      have hc : c ∈ stops := hrest c rfl
      exact ⟨List.takeWhile_cons_of_neg (by simpa using hc),
        List.dropWhile_cons_of_neg (by simpa using hc)⟩
  rw [part, List.takeWhile_append_of_pos hplain, List.dropWhile_append_of_pos hplain, hstop.1,
    hstop.2, List.append_nil]

/-- A part of a text and what follows, from its first stop on. -/
theorem exists_part (stops text : List Char) : ∃ piece rest, text = piece ++ rest ∧
    (∀ c ∈ piece, c ∉ stops) ∧ ∀ c ∈ rest.head?, c ∈ stops := by
  induction text with
  | nil => exact ⟨[], [], rfl, by simp, by simp⟩
  | cons c text ih =>
    by_cases hc : c ∈ stops
    · exact ⟨[], c :: text, rfl, by simp, by simpa using hc⟩
    · obtain ⟨piece, rest, rfl, hpiece, hrest⟩ := ih
      exact ⟨c :: piece, rest, rfl, by simpa [hc] using hpiece, hrest⟩

end Part

@[simp] theorem marked_cons (mark : Char) (text : List Char) : marked mark (mark :: text) =
    some text :=
  if_pos rfl

theorem marked_of_ne {mark : Char} {text : List Char} (h : ∀ c ∈ text.head?, c ≠ mark) :
    marked mark text = none := by
  cases text with
  | nil => rfl
  | cons c text => exact if_neg (h c rfl)

/-- A scheme is found again before its colon. -/
theorem splitScheme_append {scheme : List Char} (rest : List Char) (hne : scheme ≠ [])
    (hplain : ∀ c ∈ scheme, c ∉ [':', '/', '?', '#']) :
    splitScheme (scheme ++ ':' :: rest) = (some scheme, rest) := by
  have hstop : ∀ c ∈ (':' :: rest).head?, c ∈ [':', '/', '?', '#'] := by simp
  simp only [splitScheme, part_append hplain hstop, marked_cons, if_neg hne]

/-- An authority is found again behind the two slashes. -/
theorem splitAuthority_append {authority rest : List Char}
    (hplain : ∀ c ∈ authority, c ∉ ['/', '?', '#'])
      (hrest : ∀ c ∈ rest.head?, c ∈ ['/', '?', '#']) :
    splitAuthority ('/' :: '/' :: (authority ++ rest)) = (some authority, rest) := by
  simp only [splitAuthority, marked_cons, Option.bind_some, part_append hplain hrest]

section Split

variable {parts : Parts} {scheme authority : List Char}

theorem fragmentText_head (parts : Parts) : ∀ c ∈ parts.fragmentText.head?, c = '#' := by
  cases hfragment : parts.fragment <;> simp [Parts.fragmentText, hfragment, eq_comm]

theorem queryText_head (parts : Parts) :
    ∀ c ∈ (parts.queryText ++ parts.fragmentText).head?, c ∈ ['?', '#'] := by
  cases hquery : parts.query with
  | none =>
    intro c hc
    have := fragmentText_head parts c (by simpa [Parts.queryText, hquery] using hc)
    simp [this]
  | some query => simp [Parts.queryText, hquery]

/-- A query is found again before the fragment. -/
theorem splitQuery_text (hplain : ∀ query ∈ parts.query, ∀ c ∈ query, c ∉ ['#']) :
    splitQuery (parts.queryText ++ parts.fragmentText) = (parts.query, parts.fragmentText) := by
  have hhead := fragmentText_head parts
  cases hquery : parts.query with
  | none =>
    have hmark : marked '?' parts.fragmentText = none :=
      marked_of_ne fun c hc => by rw [hhead c hc]; decide
    simp only [splitQuery, Parts.queryText, hquery, Option.elim_none, List.nil_append, hmark]
  | some query =>
    have hpart : part ['#'] (query ++ parts.fragmentText) = (query, parts.fragmentText) :=
      part_append (hplain query hquery) fun c hc => by simp [hhead c hc]
    simp only [splitQuery, Parts.queryText, hquery, Option.elim_some, List.cons_append, marked_cons,
      hpart]

/-- A fragment is found again at the end. -/
theorem marked_fragmentText (parts : Parts) : marked '#' parts.fragmentText = parts.fragment := by
  cases hfragment : parts.fragment with
  | none => simp [Parts.fragmentText, hfragment, marked]
  | some fragment => simp [Parts.fragmentText, hfragment]

/-- The text of a URI with an authority, piece by piece. -/
theorem Parts.Absolute.text_eq (h : parts.Absolute scheme authority) :
    parts.text = scheme ++ ':' :: '/' :: '/' ::
      (authority ++ (parts.path ++ (parts.queryText ++ parts.fragmentText))) := by
  simp [Parts.text, Parts.hierText, h.scheme_eq, h.authority_eq]

/-- **Splitting undoes putting together.** -/
theorem split_text (h : parts.Absolute scheme authority) : split parts.text = parts := by
  have hquery := queryText_head parts
  have hpath : ∀ c ∈ (parts.path ++ (parts.queryText ++ parts.fragmentText)).head?,
      c ∈ ['/', '?', '#'] := by
    intro c hc
    cases hnil : parts.path with
    | nil =>
      rw [hnil, List.nil_append] at hc
      exact List.mem_cons_of_mem _ (hquery c hc)
    | cons d path =>
      have hd : d = '/' := h.path_begins d (by rw [hnil]; rfl)
      rw [hnil] at hc
      cases hc
      simp [hd]
  simp only [h.text_eq, split, splitScheme_append _ h.scheme_ne_nil h.scheme_plain,
    splitAuthority_append h.authority_plain hpath, part_append h.path_plain hquery,
    splitQuery_text h.query_plain, marked_fragmentText]
  cases parts
  simp [h.scheme_eq.symm, h.authority_eq.symm]

/-- What follows the path is a query, a fragment, both or neither. -/
theorem exists_query {text : List Char} (h : ∀ c ∈ text.head?, c ∈ ['?', '#']) :
    ∃ query fragment : Option (List Char), (∀ q ∈ query, ∀ c ∈ q, c ∉ ['#']) ∧
      text = query.elim [] ('?' :: ·) ++ fragment.elim [] ('#' :: ·) := by
  cases text with
  | nil => exact ⟨none, none, by simp, rfl⟩
  | cons c text =>
    have hc := h c rfl
    rw [List.mem_pair] at hc
    rcases hc with rfl | rfl
    · obtain ⟨query, rest, rfl, hquery, hstop⟩ := exists_part ['#'] text
      refine ⟨some query, ?_⟩
      cases rest with
      | nil => exact ⟨none, by simpa using hquery, rfl⟩
      | cons d rest =>
        obtain rfl : d = '#' := by simpa using hstop d rfl
        exact ⟨some rest, by simpa using hquery, rfl⟩
    · exact ⟨none, some text, by simp, rfl⟩

/-- **A text with a scheme and an authority is put together from its parts.** -/
theorem split_spec (rest : List Char) (hne : scheme ≠ [])
    (hplain : ∀ c ∈ scheme, c ∉ [':', '/', '?', '#']) :
    ∃ authority, (split (scheme ++ ':' :: '/' :: '/' :: rest)).Absolute scheme authority ∧
      (split (scheme ++ ':' :: '/' :: '/' :: rest)).text = scheme ++ ':' :: '/' :: '/' :: rest := by
  obtain ⟨authority, afterAuthority, rfl, hauthority, hstop⟩ := exists_part ['/', '?', '#'] rest
  obtain ⟨path, afterPath, rfl, hpath, hstop'⟩ := exists_part ['?', '#'] afterAuthority
  have hbegins : ∀ c ∈ path.head?, c = '/' := by
    cases path with
    | nil => simp
    | cons c path =>
      have hc := hstop c rfl
      have hnot := hpath c (by simp)
      simp_all
  obtain ⟨query, fragment, hquery, hafter⟩ := exists_query hstop'
  let parts : Parts := ⟨some scheme, some authority, path, query, fragment⟩
  have habsolute : parts.Absolute scheme authority :=
    ⟨rfl, hne, hplain, rfl, hauthority, hbegins, hpath, hquery⟩
  have htext : parts.text = scheme ++ ':' :: '/' :: '/' :: (authority ++ (path ++ afterPath)) := by
    rw [habsolute.text_eq, hafter]
    rfl
  rw [← htext, split_text habsolute]
  exact ⟨authority, habsolute, rfl⟩

/-! ## Changing a part -/

/-- With another scheme it still is a URI with that authority. -/
theorem Parts.Absolute.withScheme (h : parts.Absolute scheme authority) {other : List Char}
    (hne : other ≠ []) (hplain : ∀ c ∈ other, c ∉ [':', '/', '?', '#']) :
    ({ parts with scheme := some other } : Parts).Absolute other authority :=
  ⟨rfl, hne, hplain, h.authority_eq, h.authority_plain, h.path_begins, h.path_plain, h.query_plain⟩

/-- Another scheme leaves the other parts. -/
theorem split_withScheme {other : List Char} (rest : List Char) (hne : scheme ≠ [])
    (hplain : ∀ c ∈ scheme, c ∉ [':', '/', '?', '#']) (hne' : other ≠ [])
    (hplain' : ∀ c ∈ other, c ∉ [':', '/', '?', '#']) :
    split (other ++ ':' :: '/' :: '/' :: rest) =
      { split (scheme ++ ':' :: '/' :: '/' :: rest) with scheme := some other } := by
  obtain ⟨authority, habsolute, htext⟩ := split_spec rest hne hplain
  have hother := habsolute.withScheme hne' hplain'
  rw [habsolute.text_eq] at htext
  have hrest := List.append_cancel_left htext
  simp only [List.cons.injEq, true_and] at hrest
  rw [← split_text hother, hother.text_eq]
  simp only [Parts.queryText, Parts.fragmentText] at hrest ⊢
  rw [hrest]

/-- What is put behind a text that ends with its path goes to the path. -/
theorem split_append_path {tail : List Char} (h : parts.Absolute scheme authority)
    (hquery : parts.query = none) (hfragment : parts.fragment = none)
    (hbegins : tail.head? = some '/') (htail : ∀ c ∈ tail, c ∉ ['?', '#']) :
    split (parts.text ++ tail) = { parts with path := parts.path ++ tail } := by
  let longer : Parts := { parts with path := parts.path ++ tail }
  have hpath : ∀ c ∈ longer.path.head?, c = '/' := by
    intro c hc
    cases hnil : parts.path with
    | nil =>
      simp only [longer, hnil, List.nil_append, hbegins, Option.mem_some_iff] at hc
      exact hc.symm
    | cons d path =>
      simp only [longer, hnil, List.cons_append, List.head?_cons, Option.mem_some_iff] at hc
      exact h.path_begins c (by rw [hnil, hc]; rfl)
  have hplain : ∀ c ∈ longer.path, c ∉ ['?', '#'] := by
    intro c hc
    rcases List.mem_append.mp hc with hmem | hmem
    · exact h.path_plain c hmem
    · exact htail c hmem
  have hlonger : longer.Absolute scheme authority :=
    ⟨h.scheme_eq, h.scheme_ne_nil, h.scheme_plain, h.authority_eq, h.authority_plain, hpath, hplain,
      h.query_plain⟩
  have htext : longer.text = parts.text ++ tail := by
    rw [hlonger.text_eq, h.text_eq]
    simp [longer, Parts.queryText, Parts.fragmentText, hquery, hfragment]
  rw [← htext]
  exact split_text hlonger

/-- What is put behind a text with a fragment goes to the fragment. -/
theorem split_append_fragment {fragment : List Char} (tail : List Char)
    (h : parts.Absolute scheme authority) (hfragment : parts.fragment = some fragment) :
    split (parts.text ++ tail) = { parts with fragment := some (fragment ++ tail) } := by
  let longer : Parts := { parts with fragment := some (fragment ++ tail) }
  have hlonger : longer.Absolute scheme authority :=
    ⟨h.scheme_eq, h.scheme_ne_nil, h.scheme_plain, h.authority_eq, h.authority_plain,
      h.path_begins, h.path_plain, h.query_plain⟩
  have htext : longer.text = parts.text ++ tail := by
    rw [hlonger.text_eq, h.text_eq]
    simp [longer, Parts.queryText, Parts.fragmentText, hfragment]
  rw [← htext]
  exact split_text hlonger

theorem takeWhile_append_stop {p : Char → Bool} {c : Char} (text more : List Char)
    (hc : p c = false) : (text ++ c :: more).takeWhile p = text.takeWhile p := by
  induction text with
  | nil => exact List.takeWhile_cons_of_neg (by simp [hc])
  | cons d text ih => simp only [List.cons_append, List.takeWhile_cons, ih]

/-- The authority ends at the first slash. -/
theorem split_authority_slash (rest more : List Char) (hne : scheme ≠ [])
    (hplain : ∀ c ∈ scheme, c ∉ [':', '/', '?', '#']) :
    (split (scheme ++ ':' :: '/' :: '/' :: (rest ++ '/' :: more))).authority =
      (split (scheme ++ ':' :: '/' :: '/' :: rest)).authority := by
  have hslash : decide ('/' ∉ ['/', '?', '#']) = false := rfl
  have hends := takeWhile_append_stop (p := fun c => decide (c ∉ ['/', '?', '#'])) rest more hslash
  simp only [split, splitScheme_append _ hne hplain, splitAuthority, marked_cons, Option.bind_some,
    part, hends]

end Split

end Uri
