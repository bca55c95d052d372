import SensorRemote.IdentityInput
import SensorRemote.Lib.Uri

/-!
# Server URLs

The user names the server by a URL, which `websocket_url` (`sensor-render`) turns into that of a
WebSocket. It looks at the parts of the URL when it decides whether to take it, but only at the end
of its text when it decides whether the path is there already. An authority `ws` is taken for the
path so, and behind a fragment the path is no path.
-/

namespace SensorRemote

open Uri

/-! ## Addresses -/

/-- `char::to_digit`. -/
def toDigit (radix : ℕ) (c : Char) : Option ℕ := (hexDigit c).filter (· < radix)

/-- `read_number` of an address, of a type with numbers below `limit`. -/
def readNumber (radix maxDigits limit : ℕ) (allowZeroPrefix : Bool) (text : List Char) :
    Option (ℕ × List Char) :=
  let digits := text.takeWhile fun c => (toDigit radix c).isSome
  let value := digits.foldl (fun value c => value * radix + (toDigit radix c).getD 0) 0
  if digits = [] ∨ digits.length > maxDigits ∨ value ≥ limit ∨
      !allowZeroPrefix ∧ digits.head? = some '0' ∧ digits.length > 1 then none
  else some (value, text.drop digits.length)

/-- `read_separator`: the first number has none before it. -/
def readSeparator {α : Type} (separator : Char) (first : Bool)
    (inner : List Char → Option (α × List Char)) (text : List Char) : Option (α × List Char) :=
  if first then inner text else (marked separator text).bind inner

/-- `read_ipv4_addr`. -/
def readIpv4Addr (text : List Char) : Option (List ℕ × List Char) := do
  let octet := readNumber 10 3 256 false
  let (a, text) ← readSeparator '.' true octet text
  let (b, text) ← readSeparator '.' false octet text
  let (c, text) ← readSeparator '.' false octet text
  let (d, text) ← readSeparator '.' false octet text
  return ([a, b, c, d], text)

/-- `read_groups`: the groups, whether an IPv4 address ended them, and what is left. -/
def readGroups : ℕ → Bool → List Char → List ℕ × Bool × List Char
  | 0, _, text => ([], false, text)
  | left + 1, first, text =>
    match if left = 0 then none else readSeparator ':' first readIpv4Addr text with
    | some (octets, text) =>
      ([256 * octets.getD 0 0 + octets.getD 1 0, 256 * octets.getD 2 0 + octets.getD 3 0],
        true, text)
    | none =>
      match readSeparator ':' first (readNumber 16 4 65536 true) text with
      | none => ([], false, text)
      | some (group, text) =>
        let (groups, ipv4, text) := readGroups left false text
        (group :: groups, ipv4, text)

/-- `read_ipv6_addr`. -/
def readIpv6Addr (text : List Char) : Option (List ℕ × List Char) :=
  let (head, headIpv4, text) := readGroups 8 true text
  if head.length = 8 then some (head, text)
  else if headIpv4 then none
  else do
    let text ← marked ':' text
    let text ← marked ':' text
    let (tail, _, text) := readGroups (8 - (head.length + 1)) true text
    return (head ++ List.replicate (8 - head.length - tail.length) 0 ++ tail, text)

/-- `IpAddr`: its octets, or its segments. -/
inductive IpAddr where
  | v4 (octets : List ℕ)
  | v6 (segments : List ℕ)
  deriving DecidableEq

/-- `IpAddr::from_str`. -/
def IpAddr.parse (text : List Char) : Option IpAddr :=
  match readIpv4Addr text with
  | some (octets, rest) => if rest = [] then some (v4 octets) else none
  | none =>
    match readIpv6Addr text with
    | some (segments, rest) => if rest = [] then some (v6 segments) else none
    | none => none

/-- `IpAddr::is_loopback`. -/
def IpAddr.isLoopback : IpAddr → Bool
  | v4 octets => octets.head? = some 127
  | v6 segments => segments = [0, 0, 0, 0, 0, 0, 0, 1]

/-! ## The URL of the server -/

/-- `tungstenite::http::Uri`: how long a text it takes, and which parts. -/
structure UriParser where
  maxLen : ℕ
  scheme : List Char → Bool
  authority : List Char → Bool
  path : List Char → Bool
  query : List Char → Bool

/-- `Uri::from_str`: an empty path reads as `/`, and the fragment is dropped. -/
def UriParser.parse (uri : UriParser) (text : List Char) : Option Parts :=
  let parts := split text
  if (String.ofList text).utf8ByteSize ≤ uri.maxLen ∧ parts.scheme.all uri.scheme ∧
      parts.authority.all uri.authority ∧ (parts.path = [] ∨ uri.path parts.path) ∧
      parts.query.all uri.query then
    some { parts with path := if parts.path = [] then ['/'] else parts.path, fragment := none }
  else none

/-- The path of the WebSocket. -/
def wsPath : List Char := "/ws".toList

/-- The server without the white space around it and the slashes behind it. -/
def trimmed (server : List Char) : List Char := (trim server).rdropWhile (· = '/')

/-- The scheme of the WebSocket in place of that of the server. -/
def rewritten (server : List Char) : Option (List Char) :=
  match "https://".toList.isPrefixOf? server with
  | some rest => some ("wss://".toList ++ rest)
  | none =>
    match "http://".toList.isPrefixOf? server with
    | some rest => some ("ws://".toList ++ rest)
    | none =>
      if "wss://".toList <+: server ∨ "ws://".toList <+: server then some server else none

/-- `trim_matches` of brackets. -/
def trimBrackets (host : List Char) : List Char :=
  (host.dropWhile (· ∈ ['[', ']'])).rdropWhile (· ∈ ['[', ']'])

/-- The host is this computer. -/
def isLoopbackHost (host : List Char) : Bool :=
  host = "localhost".toList || (IpAddr.parse (trimBrackets host)).any IpAddr.isLoopback

/-- `websocket_url`. -/
def websocketUrl (uri : UriParser) (server : List Char) : Except RenderError (List Char) :=
  match rewritten (trimmed server) with
  | none => .error (.url "use https://, http://, wss://, or ws://")
  | some websocket =>
    match uri.parse websocket with
    | none => .error (.url "invalid server URL")
    | some parts =>
      match parts.authority.map hostOf with
      | none => .error (.url "server URL has no host")
      | some host =>
        if parts.scheme = some "ws".toList ∧ !isLoopbackHost host ∨
            parts.authority.any ('@' ∈ ·) ∨ parts.query.isSome ∨
            parts.path ∉ [[], ['/'], wsPath] then
          .error (.url
            "use a public HTTPS/WSS base URL; plain WS is restricted to loopback tests")
        else if wsPath <:+ websocket then .ok websocket
        else .ok (websocket ++ wsPath)

example : IpAddr.parse "127.0.0.1".toList = some (.v4 [127, 0, 0, 1]) := by decide
example : IpAddr.parse "1::ffff:1.2.3.4".toList =
    some (.v6 [1, 0, 0, 0, 0, 0xffff, 0x102, 0x304]) := by decide
example : IpAddr.parse "::1".toList = some (.v6 [0, 0, 0, 0, 0, 0, 0, 1]) := by decide
example : IpAddr.parse "127.0.0.01".toList = none := by decide

/-! ## What is taken -/

/-- What the URL of a server should be. -/
structure Normalised (server url : List Char) : Prop where
  authority : (split url).authority = (split (trim server)).authority
  no_user : ∀ authority ∈ (split url).authority, '@' ∉ authority
  no_query : (split url).query = none
  path : (split url).path = wsPath
  scheme : (split url).scheme = some "wss".toList ∨ (split url).scheme = some "ws".toList ∧
    ∃ authority ∈ (split url).authority, isLoopbackHost (hostOf authority) = true

/-- The servers for which the text and the parts agree, and whose URL the parser takes. -/
structure Agreeing (maxLen : ℕ) (server : List Char) : Prop where
  path : (split (trimmed server)).path = wsPath ∨
    (split (trimmed server)).fragment = none ∧
      (split (trimmed server)).authority ≠ some "ws".toList
  fits : wsPath <:+ trimmed server ∨ (String.ofList (trimmed server)).utf8ByteSize + 3 ≤
    maxLen + if "http".toList <+: trimmed server then 2 else 0

/-- A scheme of a server, and that of its WebSocket. -/
def schemes : List (List Char × List Char) :=
  [("https".toList, "wss".toList), ("http".toList, "ws".toList), ("wss".toList, "wss".toList),
    ("ws".toList, "ws".toList)]

/-- A URL with a scheme. -/
def withScheme (scheme rest : List Char) : List Char := scheme ++ ':' :: '/' :: '/' :: rest

theorem scheme_plain {scheme : List Char}
    (h : scheme ∈ schemes.map Prod.fst ++ schemes.map Prod.snd) :
    scheme ≠ [] ∧ ∀ c ∈ scheme, c ∉ [':', '/', '?', '#'] := by
  have hall : (schemes.map Prod.fst ++ schemes.map Prod.snd).all fun scheme =>
      scheme ≠ [] && scheme.all (· ∉ [':', '/', '?', '#']) := by decide
  have hscheme := List.all_eq_true.mp hall scheme h
  rw [Bool.and_eq_true, decide_eq_true_eq] at hscheme
  exact ⟨hscheme.1, fun c hc => of_decide_eq_true (List.all_eq_true.mp hscheme.2 c hc)⟩

theorem rewritten_spec {server websocket : List Char} (h : rewritten server = some websocket) :
    ∃ scheme ∈ schemes, ∃ rest, server = withScheme scheme.1 rest ∧
      websocket = withScheme scheme.2 rest := by
  simp only [rewritten] at h
  split at h
  · rename_i rest hrest
    cases h
    exact ⟨("https".toList, "wss".toList), by decide, rest,
      (List.isPrefixOf?_eq_some_iff_append_eq.mp hrest).symm, rfl⟩
  split at h
  · rename_i rest hrest
    cases h
    exact ⟨("http".toList, "ws".toList), by decide, rest,
      (List.isPrefixOf?_eq_some_iff_append_eq.mp hrest).symm, rfl⟩
  split at h
  · rename_i hprefix
    cases h
    rcases hprefix with ⟨rest, rfl⟩ | ⟨rest, rfl⟩
    · exact ⟨("wss".toList, "wss".toList), by decide, rest, rfl, rfl⟩
    · exact ⟨("ws".toList, "ws".toList), by decide, rest, rfl, rfl⟩
  · cases h

/-- The URL of a WebSocket stays as it is. -/
theorem rewritten_websocket {scheme : List Char × List Char} (h : scheme ∈ schemes)
    (rest : List Char) :
    rewritten (withScheme scheme.2 rest) = some (withScheme scheme.2 rest) := by
  simp only [schemes, List.mem_cons, List.not_mem_nil, or_false] at h
  rcases h with rfl | rfl | rfl | rfl <;> rfl

/-- What is checked of a URL and its parts. -/
structure Checked (uri : UriParser) (url authority : List Char) : Prop where
  fits : (String.ofList url).utf8ByteSize ≤ uri.maxLen
  scheme_valid : (split url).scheme.all uri.scheme = true
  authority_eq : (split url).authority = some authority
  authority_valid : uri.authority authority = true
  path_valid : (split url).path = [] ∨ uri.path (split url).path = true
  no_query : (split url).query = none
  path_mem : (split url).path ∈ [[], ['/'], wsPath]
  no_user : '@' ∉ authority
  loopback : (split url).scheme = some "ws".toList → isLoopbackHost (hostOf authority) = true

theorem parse_eq_some {uri : UriParser} {url : List Char} {parts : Parts} :
    uri.parse url = some parts ↔ ((String.ofList url).utf8ByteSize ≤ uri.maxLen ∧
      (split url).scheme.all uri.scheme ∧ (split url).authority.all uri.authority ∧
      ((split url).path = [] ∨ uri.path (split url).path) ∧ (split url).query.all uri.query) ∧
      parts = { split url with
        path := if (split url).path = [] then ['/'] else (split url).path, fragment := none } := by
  simp only [UriParser.parse, Option.ite_none_right_eq_some, Option.some.injEq]
  exact and_congr_right fun _ => eq_comm

/-- The parts of a URL pass exactly if they are checked so. -/
theorem checked_iff {uri : UriParser} {url : List Char} : (∃ authority, Checked uri url authority) ↔
    ∃ parts host, uri.parse url = some parts ∧ parts.authority.map hostOf = some host ∧
      ¬(parts.scheme = some "ws".toList ∧ !isLoopbackHost host ∨
        parts.authority.any ('@' ∈ ·) ∨ parts.query.isSome ∨
        parts.path ∉ [[], ['/'], wsPath]) := by
  have hpath : (if (split url).path = [] then ['/'] else (split url).path) ∈ [[], ['/'], wsPath] ↔
      (split url).path ∈ [[], ['/'], wsPath] := by
    split
    · rename_i hnil
      simp [hnil]
    · rfl
  constructor
  · rintro ⟨authority, hfits, hscheme, hauthority, hvalid, hpathValid, hquery, hmem, huser,
      hloopback⟩
    refine ⟨_, hostOf authority, parse_eq_some.mpr ⟨⟨hfits, hscheme, ?_, hpathValid, ?_⟩, rfl⟩,
      ?_, ?_⟩
    · simp [hauthority, hvalid]
    · simp [hquery]
    · simp [hauthority]
    · simp only [hpath, hmem, hauthority, hquery]
      simpa [huser] using hloopback
  · rintro ⟨parts, host, hparse, hhost, hnot⟩
    obtain ⟨⟨hfits, hscheme, hvalid, hpathValid, -⟩, rfl⟩ := parse_eq_some.mp hparse
    obtain ⟨authority, hauthority, rfl⟩ := Option.map_eq_some_iff.mp hhost
    simp only [hpath, not_or, not_and, not_not] at hnot hauthority
    obtain ⟨hloopback, huser, hquery, hmem⟩ := hnot
    simp only [hauthority, Option.all_some] at hvalid
    exact ⟨authority, hfits, hscheme, hauthority, hvalid, hpathValid, by simpa using hquery, hmem,
      by simpa [hauthority] using huser, fun h => by simpa using hloopback h⟩

theorem websocketUrl_eq_ok {uri : UriParser} {server url : List Char} :
    websocketUrl uri server = .ok url ↔ ∃ websocket, rewritten (trimmed server) = some websocket ∧
      (∃ authority, Checked uri websocket authority) ∧
        url = if wsPath <:+ websocket then websocket else websocket ++ wsPath := by
  simp only [checked_iff]
  cases hrewritten : rewritten (trimmed server) with
  | none => simp [websocketUrl, hrewritten]
  | some websocket =>
    cases hparse : uri.parse websocket with
    | none => simp [websocketUrl, hrewritten, hparse]
    | some parts =>
      cases hhost : parts.authority.map hostOf with
      | none =>
        apply iff_of_false (by simp [websocketUrl, hrewritten, hparse, hhost])
        rintro ⟨_, hw, ⟨_, host, hparts, hhost', -⟩, -⟩
        cases hw
        cases hparse.symm.trans hparts
        cases hhost.symm.trans hhost'
      | some host =>
        simp only [websocketUrl, hrewritten, hparse, hhost]
        split
        · rename_i hrefused
          refine iff_of_false (fun h => by cases h) ?_
          rintro ⟨_, hw, ⟨_, host', hparts, hhost', hnot⟩, -⟩
          cases hw
          cases hparse.symm.trans hparts
          cases hhost.symm.trans hhost'
          exact hnot hrefused
        · rename_i hnot
          constructor
          · intro h
            exact ⟨websocket, rfl, ⟨parts, host, hparse, hhost, hnot⟩, by split at h <;> simp_all⟩
          · rintro ⟨_, hw, -, rfl⟩
            cases hw
            split <;> rfl

/-! ## The text and the parts -/

theorem wsPath_plain : ∀ c ∈ wsPath, c ∉ ['?', '#'] := by
  have hall : wsPath.all (· ∉ ['?', '#']) := by decide
  exact fun c hc => of_decide_eq_true (List.all_eq_true.mp hall c hc)

/-- The end of a URL is behind its scheme. -/
theorem suffix_withScheme {scheme rest : List Char} :
    wsPath <:+ withScheme scheme rest ↔ wsPath <:+ ':' :: '/' :: '/' :: rest := by
  constructor
  · intro h
    apply List.suffix_of_suffix_length_le h (List.suffix_append scheme _)
    simp [wsPath]
  · exact fun h => h.trans (List.suffix_append scheme _)

theorem utf8ByteSize_append (text text' : List Char) :
    (String.ofList (text ++ text')).utf8ByteSize =
      (String.ofList text).utf8ByteSize + (String.ofList text').utf8ByteSize := by
  rw [String.ofList_append, String.utf8ByteSize_append]

theorem size_withScheme (scheme rest : List Char) :
    (String.ofList (withScheme scheme rest)).utf8ByteSize =
      (String.ofList scheme).utf8ByteSize +
        (String.ofList (':' :: '/' :: '/' :: rest)).utf8ByteSize := utf8ByteSize_append _ _

/-- The scheme makes a server as much longer than its WebSocket. -/
theorem size_server {scheme : List Char × List Char} (h : scheme ∈ schemes) (rest : List Char) :
    (String.ofList (withScheme scheme.1 rest)).utf8ByteSize =
      (String.ofList (withScheme scheme.2 rest)).utf8ByteSize +
        if "http".toList <+: withScheme scheme.1 rest then 2 else 0 := by
  simp only [schemes, List.mem_cons, List.not_mem_nil, or_false] at h
  rcases h with rfl | rfl | rfl | rfl
  · have hhttp : "http".toList <+: withScheme "https".toList rest :=
      ⟨'s' :: withScheme [] rest, rfl⟩
    have hlonger : (String.ofList "https".toList).utf8ByteSize =
        (String.ofList "wss".toList).utf8ByteSize + 2 := by decide
    simp only [if_pos hhttp, size_withScheme]
    omega
  · have hhttp : "http".toList <+: withScheme "http".toList rest := ⟨withScheme [] rest, rfl⟩
    have hlonger : (String.ofList "http".toList).utf8ByteSize =
        (String.ofList "ws".toList).utf8ByteSize + 2 := by decide
    simp only [if_pos hhttp, size_withScheme]
    omega
  · have hnot : ¬"http".toList <+: withScheme "wss".toList rest := by simp [withScheme]
    simp only [if_neg hnot, Nat.add_zero]
  · have hnot : ¬"http".toList <+: withScheme "ws".toList rest := by simp [withScheme]
    simp only [if_neg hnot, Nat.add_zero]

/-- Nothing is trimmed off the URL of a WebSocket. -/
theorem trimmed_websocket {scheme : List Char × List Char} (h : scheme ∈ schemes) {rest : List Char}
    (hends : wsPath <:+ withScheme scheme.2 rest) :
    trimmed (withScheme scheme.2 rest) = withScheme scheme.2 rest := by
  obtain ⟨body, hbody⟩ := hends
  have hfirst : (withScheme scheme.2 rest).dropWhile isWhitespace = withScheme scheme.2 rest := by
    simp only [schemes, List.mem_cons, List.not_mem_nil, or_false] at h
    rcases h with rfl | rfl | rfl | rfl <;> exact List.dropWhile_cons_of_neg (by decide)
  have hlast : ∀ p : Char → Bool, p 's' = false →
      (withScheme scheme.2 rest).rdropWhile p = withScheme scheme.2 rest := by
    intro p hp
    rw [← hbody, List.rdropWhile_eq_self_iff]
    intro hne
    simp [wsPath, hp]
  rw [trimmed, trim, hfirst, hlast _ (by decide), hlast _ (by decide)]

/-- A server that is trimmed ends with no slash. -/
theorem trimmed_ends (server : List Char) : (trimmed server).getLast? ≠ some '/' := by
  intro h
  have hne : trimmed server ≠ [] := by
    rintro hnil
    rw [hnil] at h
    cases h
  have hlast := List.rdropWhile_last_not (· = '/') (trim server) hne
  rw [List.getLast?_eq_some_getLast hne, Option.some.injEq] at h
  exact hlast (by simpa [trimmed] using h)

/-- An authority at the end of a URL that is read as the path. -/
theorem eq_ws_of_suffix {authority : List Char} (hslash : '/' ∉ authority)
    (h : wsPath <:+ ':' :: '/' :: '/' :: authority) : authority = "ws".toList := by
  by_cases hlong : 3 ≤ authority.length
  · -- the slash would be in the authority
    have hsuffix : wsPath <:+ authority :=
      List.suffix_of_suffix_length_le h ⟨[':', '/', '/'], rfl⟩ hlong
    exact absurd (hsuffix.subset (by decide)) hslash
  · rw [← List.reverse_prefix] at h
    match authority with
    | [] => simp [wsPath, List.cons_prefix_cons] at h
    | [a] => simp [wsPath, List.cons_prefix_cons] at h
    | [a, b] =>
      obtain ⟨rfl, rfl⟩ : 's' = b ∧ 'w' = a := by simpa [wsPath, List.cons_prefix_cons] using h
      rfl
    | _ :: _ :: _ :: _ => simp at hlong

section Websocket

variable {uri : UriParser} {server rest authority : List Char} {scheme : List Char × List Char}

theorem websocket_absolute (hscheme : scheme ∈ schemes)
    (hauthority : (split (withScheme scheme.2 rest)).authority = some authority) :
    (split (withScheme scheme.2 rest)).Absolute scheme.2 authority ∧
      (split (withScheme scheme.2 rest)).text = withScheme scheme.2 rest := by
  obtain ⟨hne, hplain⟩ := scheme_plain (List.mem_append_right _ (List.mem_map_of_mem hscheme))
  obtain ⟨found, habsolute, htext⟩ := split_spec rest hne hplain
  obtain rfl : found = authority := Option.some.inj (habsolute.authority_eq.symm.trans hauthority)
  exact ⟨habsolute, htext⟩

/-- The WebSocket has the parts of the server. -/
theorem websocket_parts (hscheme : scheme ∈ schemes)
    (hbase : trimmed server = withScheme scheme.1 rest) :
    split (withScheme scheme.2 rest) = { split (trimmed server) with scheme := some scheme.2 } := by
  obtain ⟨hne, hplain⟩ := scheme_plain (List.mem_append_left _ (List.mem_map_of_mem hscheme))
  obtain ⟨hne', hplain'⟩ := scheme_plain (List.mem_append_right _ (List.mem_map_of_mem hscheme))
  rw [hbase]
  exact split_withScheme rest hne hplain hne' hplain'

/-- Where the text of a WebSocket ends with the path, the path is this one, unless the end is in a
fragment or is the authority. -/
theorem path_of_suffix (hscheme : scheme ∈ schemes)
    (hchecked : Checked uri (withScheme scheme.2 rest) authority)
    (hends : wsPath <:+ withScheme scheme.2 rest)
    (hfragment : (split (withScheme scheme.2 rest)).fragment = none)
    (hws : authority ≠ "ws".toList) : (split (withScheme scheme.2 rest)).path = wsPath := by
  obtain ⟨habsolute, htext⟩ := websocket_absolute hscheme hchecked.authority_eq
  have hquery := hchecked.no_query
  have hmem := hchecked.path_mem
  generalize split (withScheme scheme.2 rest) = parts at *
  rw [habsolute.text_eq, Parts.queryText, Parts.fragmentText, hquery, hfragment] at htext
  simp only [Option.elim_none, List.append_nil] at htext
  rw [← htext] at hends
  simp only [List.mem_cons, List.not_mem_nil, or_false] at hmem
  rcases hmem with hnil | hslash | hpath
  · rw [hnil, List.append_nil] at hends
    have hslash : '/' ∉ authority := fun h => habsolute.authority_plain _ h (by decide)
    exact absurd (eq_ws_of_suffix hslash (suffix_withScheme.mp hends)) hws
  · obtain ⟨body, hbody⟩ := hends
    have hlast := congrArg List.getLast? hbody
    have hpath : scheme.2 ++ ':' :: '/' :: '/' :: (authority ++ ['/']) =
        withScheme scheme.2 authority ++ ['/'] := by simp [withScheme]
    rw [hslash, hpath, List.getLast?_concat] at hlast
    simp [wsPath] at hlast
  · exact hpath

/-- The URL of a WebSocket with the path put behind it. -/
theorem withScheme_append (scheme rest : List Char) :
    withScheme scheme rest ++ wsPath = withScheme scheme (rest ++ wsPath) := by
  simp [withScheme]

/-- What putting the path behind the text does to the parts. -/
structure Completed (parts completed : Parts) : Prop where
  scheme : completed.scheme = parts.scheme
  authority : completed.authority = parts.authority
  query : completed.query = parts.query
  path : parts.fragment = none ∧ completed.path = parts.path ++ wsPath ∨
    parts.fragment ≠ none ∧ completed.path = parts.path

theorem completed_parts (hscheme : scheme ∈ schemes)
    (hchecked : Checked uri (withScheme scheme.2 rest) authority) :
    Completed (split (withScheme scheme.2 rest)) (split (withScheme scheme.2 rest ++ wsPath)) := by
  obtain ⟨habsolute, htext⟩ := websocket_absolute hscheme hchecked.authority_eq
  cases hfragment : (split (withScheme scheme.2 rest)).fragment with
  | none =>
    have hparts := split_append_path habsolute hchecked.no_query hfragment (by decide) wsPath_plain
    rw [htext] at hparts
    rw [hparts]
    exact ⟨rfl, rfl, rfl, .inl ⟨hfragment, rfl⟩⟩
  | some fragment =>
    have hparts := split_append_fragment wsPath habsolute hfragment
    rw [htext] at hparts
    rw [hparts]
    exact ⟨rfl, rfl, rfl, .inr ⟨by simp [hfragment], rfl⟩⟩

/-- Where the path is not at the end, and there is no fragment, it is nowhere. -/
theorem path_eq_nil (hscheme : scheme ∈ schemes) (hbase : trimmed server = withScheme scheme.1 rest)
    (hchecked : Checked uri (withScheme scheme.2 rest) authority)
    (hends : ¬wsPath <:+ withScheme scheme.2 rest)
    (hfragment : (split (withScheme scheme.2 rest)).fragment = none) :
    (split (withScheme scheme.2 rest)).path = [] ∧ authority ≠ "ws".toList := by
  obtain ⟨habsolute, htext⟩ := websocket_absolute hscheme hchecked.authority_eq
  have hquery := hchecked.no_query
  have hmem := hchecked.path_mem
  generalize split (withScheme scheme.2 rest) = parts at *
  rw [habsolute.text_eq, Parts.queryText, Parts.fragmentText, hquery, hfragment] at htext
  simp only [Option.elim_none, List.append_nil] at htext
  have hrest : rest = authority ++ parts.path := by
    have := List.append_cancel_left htext
    simpa using this.symm
  simp only [List.mem_cons, List.not_mem_nil, or_false] at hmem
  rcases hmem with hnil | hslash | hpath
  · refine ⟨hnil, ?_⟩
    rintro rfl
    rw [hrest, hnil, List.append_nil] at hends
    exact hends ⟨scheme.2 ++ [':', '/'], by simp [withScheme, wsPath]⟩
  · have hlast := trimmed_ends server
    rw [hbase, hrest, hslash, withScheme, ← List.cons_append, ← List.cons_append,
      ← List.cons_append,
      ← List.append_assoc, List.getLast?_concat] at hlast
    exact absurd rfl hlast
  · rw [hrest, hpath] at hends
    exact absurd ⟨withScheme scheme.2 authority, by simp [withScheme]⟩ hends

/-- The path of the URL. -/
theorem path_iff (hscheme : scheme ∈ schemes) (hbase : trimmed server = withScheme scheme.1 rest)
    (hchecked : Checked uri (withScheme scheme.2 rest) authority) :
    (split (if wsPath <:+ withScheme scheme.2 rest then withScheme scheme.2 rest
      else withScheme scheme.2 rest ++ wsPath)).path = wsPath ↔
    (split (trimmed server)).path = wsPath ∨ (split (trimmed server)).fragment = none ∧
      (split (trimmed server)).authority ≠ some "ws".toList := by
  have hparts := websocket_parts hscheme hbase
  have hpath : (split (trimmed server)).path = (split (withScheme scheme.2 rest)).path := by
    rw [hparts]
  have hfragment : (split (trimmed server)).fragment =
      (split (withScheme scheme.2 rest)).fragment := by rw [hparts]
  have hauthority : (split (trimmed server)).authority = some authority := by
    rw [← hchecked.authority_eq, hparts]
  rw [hpath, hfragment, hauthority, Ne, Option.some.injEq]
  split
  · rename_i hends
    refine ⟨.inl, ?_⟩
    rintro (h | ⟨hnone, hws⟩)
    · exact h
    · exact path_of_suffix hscheme hchecked hends hnone hws
  · rename_i hends
    obtain ⟨-, -, -, ⟨hnone, hcompleted⟩ | ⟨hsome, hcompleted⟩⟩ := completed_parts hscheme hchecked
    · obtain ⟨hnil, hws⟩ := path_eq_nil hscheme hbase hchecked hends hnone
      rw [hcompleted, hnil, List.nil_append]
      exact iff_of_true rfl (.inr ⟨hnone, hws⟩)
    · rw [hcompleted]
      exact ⟨.inl, fun h => h.resolve_right fun hnone => hsome hnone.1⟩

/-- `websocket_url` takes the URL that it gives, as long as that is not too long. -/
theorem again_iff (hpath : uri.path wsPath = true) (hscheme : scheme ∈ schemes)
    (hbase : trimmed server = withScheme scheme.1 rest)
    (hchecked : Checked uri (withScheme scheme.2 rest) authority) :
    websocketUrl uri (if wsPath <:+ withScheme scheme.2 rest then withScheme scheme.2 rest
        else withScheme scheme.2 rest ++ wsPath) =
      .ok (if wsPath <:+ withScheme scheme.2 rest then withScheme scheme.2 rest
        else withScheme scheme.2 rest ++ wsPath) ↔
    wsPath <:+ trimmed server ∨ (String.ofList (trimmed server)).utf8ByteSize + 3 ≤
      uri.maxLen + if "http".toList <+: trimmed server then 2 else 0 := by
  -- a URL that ends with the path is only checked
  have hagain : ∀ rest, wsPath <:+ withScheme scheme.2 rest →
      (websocketUrl uri (withScheme scheme.2 rest) = .ok (withScheme scheme.2 rest) ↔
        ∃ authority, Checked uri (withScheme scheme.2 rest) authority) := by
    intro rest hends
    rw [websocketUrl_eq_ok, trimmed_websocket hscheme hends, rewritten_websocket hscheme]
    constructor
    · rintro ⟨_, hw, hsome, -⟩
      cases hw
      exact hsome
    · exact fun hsome => ⟨_, rfl, hsome, (if_pos hends).symm⟩
  have hsame : wsPath <:+ withScheme scheme.1 rest ↔ wsPath <:+ withScheme scheme.2 rest :=
    suffix_withScheme.trans suffix_withScheme.symm
  rw [hbase, hsame]
  by_cases hends : wsPath <:+ withScheme scheme.2 rest
  · rw [if_pos hends, hagain rest hends]
    exact iff_of_true ⟨authority, hchecked⟩ (.inl hends)
  · have hsize := size_server hscheme rest
    have hthree : (String.ofList (withScheme scheme.2 rest ++ wsPath)).utf8ByteSize =
        (String.ofList (withScheme scheme.2 rest)).utf8ByteSize + 3 := utf8ByteSize_append _ _
    rw [if_neg hends, withScheme_append, hagain _ ⟨withScheme scheme.2 rest, withScheme_append _ _⟩,
      ← withScheme_append, or_iff_right hends, hsize]
    obtain ⟨hschemeEq, hauthority, hquery, hcompleted⟩ := completed_parts hscheme hchecked
    constructor
    · rintro ⟨_, hlonger⟩
      have := hlonger.fits
      omega
    · intro hfits
      have hpaths : (split (withScheme scheme.2 rest ++ wsPath)).path ∈ [[], ['/'], wsPath] ∧
          ((split (withScheme scheme.2 rest ++ wsPath)).path = [] ∨
            uri.path (split (withScheme scheme.2 rest ++ wsPath)).path = true) := by
        rcases hcompleted with ⟨hnone, heq⟩ | ⟨-, heq⟩
        · rw [heq, (path_eq_nil hscheme hbase hchecked hends hnone).1]
          exact ⟨by simp, .inr hpath⟩
        · rw [heq]
          exact ⟨hchecked.path_mem, hchecked.path_valid⟩
      exact ⟨authority, ⟨by omega, by rw [hschemeEq]; exact hchecked.scheme_valid,
        by rw [hauthority]; exact hchecked.authority_eq, hchecked.authority_valid, hpaths.2,
        by rw [hquery]; exact hchecked.no_query, hpaths.1, hchecked.no_user,
        by rw [hschemeEq]; exact hchecked.loopback⟩⟩

/-- The authority is that of the server, whatever is put behind it. -/
theorem authority_eq_server (hscheme : scheme ∈ schemes)
    (hbase : trimmed server = withScheme scheme.1 rest) :
    (split (withScheme scheme.2 rest)).authority = (split (trim server)).authority := by
  obtain ⟨hne, hplain⟩ := scheme_plain (List.mem_append_left _ (List.mem_map_of_mem hscheme))
  rw [websocket_parts hscheme hbase]
  have hslashes : (trim server).rtakeWhile (· = '/') =
      List.replicate ((trim server).rtakeWhile (· = '/')).length '/' :=
    List.eq_replicate_iff.mpr ⟨rfl, fun c hc => by simpa using List.mem_rtakeWhile_imp hc⟩
  have htrim : trim server = trimmed server ++
      List.replicate ((trim server).rtakeWhile (· = '/')).length '/' := by
    rw [← hslashes, trimmed, List.rdropWhile_append_rtakeWhile]
  generalize ((trim server).rtakeWhile (· = '/')).length = slashes at htrim
  cases slashes with
  | zero => rw [htrim, List.replicate_zero, List.append_nil]
  | succ slashes =>
    rw [htrim, hbase, List.replicate_succ]
    simp only [withScheme, List.append_assoc, List.cons_append]
    exact (split_authority_slash rest _ hne hplain).symm

end Websocket

/-- **Server URLs.** The URL that `websocket_url` gives for a server is what it is said to be
exactly if the text of the server agrees with its parts. -/
theorem websocket_url_iff (uri : UriParser) (hpath : uri.path wsPath = true)
    (server url : List Char)
    (h : websocketUrl uri server = .ok url) :
    Normalised server url ∧ websocketUrl uri url = .ok url ↔ Agreeing uri.maxLen server := by
  obtain ⟨websocket, hrewritten, ⟨authority, hchecked⟩, rfl⟩ := websocketUrl_eq_ok.mp h
  obtain ⟨scheme, hscheme, rest, hbase, rfl⟩ := rewritten_spec hrewritten
  have hpathIff := path_iff hscheme hbase hchecked
  have hagain := again_iff hpath hscheme hbase hchecked
  constructor
  · rintro ⟨hnormalised, hsame⟩
    exact ⟨hpathIff.mp hnormalised.path, hagain.mp hsame⟩
  · rintro ⟨hagrees, hfits⟩
    refine ⟨?_, hagain.mpr hfits⟩
    have hparts : ∀ url, url = withScheme scheme.2 rest ∨ url = withScheme scheme.2 rest ++ wsPath →
        (split url).scheme = some scheme.2 ∧ (split url).authority = some authority ∧
          (split url).query = none := by
      rintro url (rfl | rfl)
      · exact ⟨(websocket_absolute hscheme hchecked.authority_eq).1.scheme_eq,
          hchecked.authority_eq, hchecked.no_query⟩
      · obtain ⟨hschemeEq, hauthority, hquery, -⟩ := completed_parts hscheme hchecked
        rw [hschemeEq, hauthority, hquery]
        exact ⟨(websocket_absolute hscheme hchecked.authority_eq).1.scheme_eq,
          hchecked.authority_eq, hchecked.no_query⟩
    obtain ⟨hschemeEq, hauthority, hquery⟩ := hparts _ (ite_eq_or_eq
      (wsPath <:+ withScheme scheme.2 rest) (withScheme scheme.2 rest)
      (withScheme scheme.2 rest ++ wsPath))
    refine ⟨?_, ?_, hquery, hpathIff.mpr hagrees, ?_⟩
    · rw [hauthority, ← authority_eq_server hscheme hbase, hchecked.authority_eq]
    · rw [hauthority]
      rintro _ ⟨⟩
      exact hchecked.no_user
    · rw [hschemeEq, hauthority]
      by_cases hws : scheme.2 = "ws".toList
      · refine .inr ⟨by rw [hws], authority, rfl, hchecked.loopback ?_⟩
        rw [(websocket_absolute hscheme hchecked.authority_eq).1.scheme_eq, hws]
      · have hwss : ∀ scheme ∈ schemes, scheme.2 ≠ "ws".toList → scheme.2 = "wss".toList := by
          decide
        exact .inl (by rw [hwss scheme hscheme hws])

namespace HostNamedWs

/-- The characters of the parts, as `http` takes them. -/
def http : UriParser where
  maxLen := 65534
  scheme text := text.all fun c => c.isAlphanum || c ∈ ['+', '-', '.']
  authority text :=
    text ≠ [] && text.all fun c => c.isAlphanum || c ∈ ".-_~!$&'()*+,;=:@[]%".toList
  path text := text.all fun c => c.isAlphanum || c ∈ "/.-_~!$&'()*+,;=:@%\"|\x7b\x7d^[]".toList
  query text := text.all fun c => c.isAlphanum || c ∈ "/?.-_~!$&'()*+,;=:@%".toList

def server : List Char := "https://ws".toList

theorem ws_taken : websocketUrl http server = .ok "wss://ws".toList := by decide +kernel

/-- The path of the server `https://ws` is left away. -/
theorem path_missing : ¬∀ server url, websocketUrl http server = .ok url →
    Normalised server url ∧ websocketUrl http url = .ok url := by
  intro hall
  have hpath := (hall server _ ws_taken).1.path
  exact absurd hpath (by decide)

/-- The server of the test does agree, behind white space and with slashes. -/
theorem local_agrees :
    Normalised " http://127.0.0.1:1234// ".toList "ws://127.0.0.1:1234/ws".toList ∧
      websocketUrl http "ws://127.0.0.1:1234/ws".toList = .ok "ws://127.0.0.1:1234/ws".toList := by
  have htaken : websocketUrl http " http://127.0.0.1:1234// ".toList =
      .ok "ws://127.0.0.1:1234/ws".toList := by decide +kernel
  exact (websocket_url_iff http (by decide) _ _ htaken).mpr ⟨by decide, by decide +kernel⟩

end HostNamedWs

end SensorRemote
