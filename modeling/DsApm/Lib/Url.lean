import Mathlib.Data.List.Sort
import Mathlib.Data.List.TakeWhile
/-!
# Url — `net/url` and the addresses `net/netip` reads

A text is a list of characters, what an escape decodes to a list of bytes.  `Parse` and `String` are those of Go 1.25: brackets in
a host hold an IPv6 address, and a query of more than 10000 pairs is read as empty.
-/
namespace NetUrl

open List

abbrev Bytes := List UInt8

def utf8 (s : List Char) : Bytes := s.flatMap String.utf8EncodeChar

def ofByte (b : UInt8) : Char := Char.ofNat b.toNat

/-- The characters of a text of bytes, after `k` bytes more of the character before.  A byte that starts none is read as U+FFFD. -/
def runesFrom : Nat → Bytes → List Char
  | _, [] => []
  | k + 1, _ :: s => runesFrom k s
  | 0, a :: s =>
    match (a :: s).toByteArray.utf8DecodeChar? 0 with
    | some c => c :: runesFrom (c.utf8Size - 1) s
    | none => '\ufffd' :: runesFrom 0 s

def runes (s : Bytes) : List Char := runesFrom 0 s

example : runes (utf8 "a김€😀".toList) = "a김€😀".toList := by decide +kernel
example : runes [0x61, 0xff, 0xea, 0xb9] = ['a', '\ufffd', '\ufffd', '\ufffd'] := by decide +kernel

theorem runesFrom_append : ∀ (u t : Bytes), runesFrom u.length (u ++ t) = runesFrom 0 t
  | [], _ => rfl
  | _ :: u, t => runesFrom_append u t

/-- **A text is read back from its bytes.** -/
theorem runes_utf8 : ∀ s : List Char, runes (utf8 s) = s
  | [] => rfl
  | c :: s => by
    have hbytes : utf8 (c :: s) = String.utf8EncodeChar c ++ utf8 s := flatMap_cons
    obtain ⟨a, u, hu⟩ := exists_cons_of_ne_nil (String.utf8EncodeChar_ne_nil (c := c))
    have hdecode : (a :: (u ++ utf8 s)).toByteArray.utf8DecodeChar? 0 = some c := by
      rw [← cons_append, ← hu, List.toByteArray_append]
      exact ByteArray.utf8DecodeChar?_utf8EncodeChar_append
    have hsize : c.utf8Size - 1 = u.length := by
      rw [← String.length_utf8EncodeChar, hu, length_cons, Nat.add_sub_cancel]
    rw [runes, hbytes, hu, cons_append, runesFrom, hdecode]
    dsimp only
    rw [hsize, runesFrom_append, ← runes, runes_utf8 s]

/-! ## Escapes -/

inductive Encoding where
  | path
  | host
  | zone
  | userPassword
  | queryComponent
  | fragment
  deriving DecidableEq

def shouldEscape (c : Char) (mode : Encoding) : Bool :=
  if c.isAlphanum then false
  else if (mode = .host ∨ mode = .zone) ∧
      c ∈ ['!', '$', '&', '\'', '(', ')', '*', '+', ',', ';', '=', ':', '[', ']', '<', '>', '"'] then false
  else if c ∈ ['-', '_', '.', '~'] then false
  else if c ∈ ['$', '&', '+', ',', '/', ':', ';', '=', '?', '@'] ∧ mode ≠ .host ∧ mode ≠ .zone then
    match mode with
    | .path => c == '?'
    | .userPassword => c == '@' || c == '/' || c == '?' || c == ':'
    | .queryComponent => true
    | _ => false
  else if mode = .fragment ∧ c ∈ ['!', '(', ')', '*'] then false
  else true

def unhex (c : Char) : Option Nat :=
  if c.isDigit then some (c.toNat - '0'.toNat)
  else if 'a' ≤ c ∧ c ≤ 'f' then some (c.toNat - 'a'.toNat + 10)
  else if 'A' ≤ c ∧ c ≤ 'F' then some (c.toNat - 'A'.toNat + 10)
  else none

def upperhex (n : Nat) : Char := if n < 10 then Char.ofNat ('0'.toNat + n) else Char.ofNat ('A'.toNat + (n - 10))

/-- What a host and a zone allow to be escaped: bytes that are not ASCII, `%`, and in a zone what a host may hold. -/
def mayEscape (mode : Encoding) (v : Nat) : Bool :=
  match mode with
  | .host => 0x80 ≤ v || v == 0x25
  | .zone => v == 0x25 || v == 0x20 || !shouldEscape (Char.ofNat v) .host
  | _ => true

def unescape (mode : Encoding) : List Char → Option Bytes
  | [] => some []
  | '%' :: a :: b :: s =>
    match unhex a, unhex b with
    | some x, some y => if mayEscape mode (16 * x + y) then (unescape mode s).map (UInt8.ofNat (16 * x + y) :: ·) else none
    | _, _ => none
  | '%' :: _ => none
  | '+' :: s => (unescape mode s).map ((if mode = .queryComponent then 0x20 else 0x2b) :: ·)
  | c :: s =>
    if (mode = .host ∨ mode = .zone) ∧ c.toNat < 0x80 ∧ shouldEscape c mode then none
    else (unescape mode s).map (String.utf8EncodeChar c ++ ·)

def escapeByte (mode : Encoding) (b : UInt8) : List Char :=
  if shouldEscape (ofByte b) mode then
    if ofByte b = ' ' ∧ mode = .queryComponent then ['+'] else ['%', upperhex (b.toNat / 16), upperhex (b.toNat % 16)]
  else [ofByte b]

def escape (mode : Encoding) (s : Bytes) : List Char := s.flatMap (escapeByte mode)

def validEncoded (mode : Encoding) (s : List Char) : Bool :=
  s.all fun c => c ∈ ['!', '$', '&', '\'', '(', ')', '*', '+', ',', ';', '=', ':', '@', '[', ']', '%'] || !shouldEscape c mode

/-! ## `netip.ParseAddr` -/

def cut (c : Char) (s : List Char) : List Char × List Char := (s.takeWhile (· != c), (s.dropWhile (· != c)).tail)

def cutLast (c : Char) (s : List Char) : Option (List Char × List Char) :=
  if c ∈ s then
    some ((s.reverse.dropWhile (· != c)).tail.reverse, (s.reverse.takeWhile (· != c)).reverse)
  else none

def isIPv4 (s : List Char) : Bool :=
  (s.splitOn '.').length == 4 && (s.splitOn '.').all fun field =>
    field != [] && field.all Char.isDigit && (field.length == 1 || field.head? != some '0') &&
      decide (field.length ≤ 3) && decide (Nat.ofDigitChars 10 field 0 ≤ 255)

def isHex (c : Char) : Bool := (unhex c).isSome

/-- The fields of an IPv6 address after the first `i`, of which `n` may still follow; `ellipsis` says that there was a `::`. -/
def ipv6Fields : Nat → Nat → Bool → List Char → Bool
  | 0, _, ellipsis, s => s.isEmpty && !ellipsis
  | n + 1, i, ellipsis, s =>
    let digits := s.takeWhile isHex
    if digits = [] ∨ 4 < digits.length then false
    else match s.dropWhile isHex with
      | '.' :: _ => (ellipsis || i == 6) && decide (i + 2 ≤ 8) && isIPv4 s && (ellipsis == decide (i + 2 < 8))
      | [] => ellipsis == decide (i + 1 < 8)
      | [':'] => false
      | ':' :: ':' :: r => !ellipsis && (if r = [] then decide (i + 1 < 8) else ipv6Fields n (i + 1) true r)
      | ':' :: r => ipv6Fields n (i + 1) ellipsis r
      | _ => false

/-- `netip.ParseAddr` reads an address that is no IPv4 address. -/
def isIPv6 (s : List Char) : Bool :=
  let (addr, zone) := cut '%' s
  s.find? (· ∈ ['.', ':', '%']) == some ':' && !(s.contains '%' && zone == []) &&
    match addr with
    | ':' :: ':' :: r => r == [] || ipv6Fields 8 0 true r
    | _ => ipv6Fields 8 0 false addr

example : isIPv6 "fe80::1%en0".toList = true := by decide
example : isIPv6 "::ffff:1.2.3.4".toList = true := by decide
example : isIPv6 "1.2.3.4".toList = false := by decide
example : isIPv6 "1:2:3:4:5:6:7:8:9".toList = false := by decide

/-! ## URLs -/

structure URL where
  scheme : List Char := []
  /-- `Opaque` -/
  opaqueData : List Char := []
  /-- The user's name, and the password if one is set. -/
  user : Option (Bytes × Option Bytes) := none
  host : Bytes := []
  path : Bytes := []
  rawPath : List Char := []
  omitHost : Bool := false
  forceQuery : Bool := false
  rawQuery : List Char := []
  fragment : Bytes := []
  rawFragment : List Char := []

/-- `getScheme`: no answer is a missing scheme before a `:`. -/
def getScheme (s : List Char) : Option (List Char × List Char) :=
  match s with
  | ':' :: _ => none
  | _ =>
    let name := s.takeWhile fun c => c.isAlphanum || c == '+' || c == '-' || c == '.'
    match s.dropWhile (fun c => c.isAlphanum || c == '+' || c == '-' || c == '.') with
    | ':' :: rest => if (s.head?.any Char.isAlpha) then some (name, rest) else some ([], s)
    | _ => some ([], s)

def validOptionalPort : List Char → Bool
  | [] => true
  | c :: cs => c == ':' && cs.all Char.isDigit

/-- The address between the brackets of a host: `%25` starts its zone. -/
def unescapeAddr (hostname : List Char) : Option Bytes :=
  match zoneAt hostname with
  | some (addr, zone) => (unescape .host addr).bind fun a => (unescape .zone zone).map (a ++ ·)
  | none => unescape .host hostname
where
  zoneAt : List Char → Option (List Char × List Char)
    | [] => none
    | c :: s => if ['%', '2', '5'].isPrefixOf (c :: s) then some ([], c :: s) else (zoneAt s).map fun r => (c :: r.1, r.2)

def parseHost (host : List Char) : Option Bytes :=
  match cutLast '[' host with
  | some (before, _) =>
    match cutLast ']' host with
    | none => none
    | some (_, colonPort) =>
      if !validOptionalPort colonPort then none
      else (unescape .host colonPort).bind fun port =>
        (unescapeAddr ((host.take (host.length - colonPort.length - 1)).drop (before.length + 1))).bind fun addr =>
          if isIPv6 (addr.map ofByte) then some (utf8 ['['] ++ addr ++ utf8 [']'] ++ port) else none
  | none =>
    match cutLast ':' host with
    | some (_, port) => if port.all Char.isDigit then unescape .host host else none
    | none => unescape .host host

def validUserinfo (s : List Char) : Bool :=
  s.all fun c => c.isAlphanum ||
    c ∈ ['-', '.', '_', ':', '~', '!', '$', '&', '\'', '(', ')', '*', '+', ',', ';', '=', '%', '@']

def parseUserinfo (userinfo : List Char) : Option (Bytes × Option Bytes) :=
  if !validUserinfo userinfo then none
  else if ':' ∈ userinfo then
    (unescape .userPassword (cut ':' userinfo).1).bind fun name =>
      (unescape .userPassword (cut ':' userinfo).2).map fun password => (name, some password)
  else (unescape .userPassword userinfo).map fun name => (name, none)

def parseAuthority (authority : List Char) : Option (Option (Bytes × Option Bytes) × Bytes) :=
  match cutLast '@' authority with
  | none => (parseHost authority).map fun host => (none, host)
  | some (userinfo, host) => (parseHost host).bind fun host => (parseUserinfo userinfo).map fun user => (some user, host)

def URL.setPath (u : URL) (p : List Char) : Option URL :=
  (unescape .path p).map fun path => { u with path, rawPath := if p = escape .path path then [] else p }

def URL.setFragment (u : URL) (f : List Char) : Option URL :=
  (unescape .fragment f).map fun fragment => { u with fragment, rawFragment := if f = escape .fragment fragment then [] else f }

/-- `parse`: what is before the fragment. -/
def parseRef (s : List Char) : Option URL :=
  if s.any fun c => c.toNat < 0x20 || c.toNat == 0x7f then none
  else if s = ['*'] then some { path := utf8 ['*'] }
  else (getScheme s).bind fun (name, rest) =>
    let scheme := name.map Char.toLower
    let forceQuery := rest.getLast? == some '?' && rest.count '?' == 1
    let (rest, rawQuery) := cut '?' rest
    let u : URL := { scheme, forceQuery, rawQuery }
    match rest with
    | '/' :: '/' :: r =>
      if scheme = [] ∧ r.head? = some '/' then u.setPath rest
      else (parseAuthority (r.takeWhile (· != '/'))).bind fun (user, host) =>
        { u with user, host }.setPath (r.dropWhile (· != '/'))
    | '/' :: _ => { u with omitHost := scheme ≠ [] }.setPath rest
    | _ =>
      if scheme ≠ [] then some { u with opaqueData := rest }
      else if ':' ∈ (cut '/' rest).1 then none
      else u.setPath rest

def parse (s : List Char) : Option URL :=
  (parseRef (cut '#' s).1).bind fun u => if (cut '#' s).2 = [] then some u else u.setFragment (cut '#' s).2

def URL.escapedPath (u : URL) : List Char :=
  if u.rawPath ≠ [] ∧ validEncoded .path u.rawPath ∧ unescape .path u.rawPath = some u.path then u.rawPath
  else if u.path = utf8 ['*'] then ['*']
  else escape .path u.path

def URL.escapedFragment (u : URL) : List Char :=
  if u.rawFragment ≠ [] ∧ validEncoded .fragment u.rawFragment ∧ unescape .fragment u.rawFragment = some u.fragment then
    u.rawFragment
  else escape .fragment u.fragment

def userString : Bytes × Option Bytes → List Char
  | (name, none) => escape .userPassword name
  | (name, some password) => escape .userPassword name ++ ':' :: escape .userPassword password

def URL.authorityString (u : URL) : List Char :=
  if u.scheme = [] ∧ u.host = [] ∧ u.user = none then []
  else if u.omitHost ∧ u.host = [] ∧ u.user = none then []
  else (if u.host ≠ [] ∨ u.path ≠ [] ∨ u.user ≠ none then ['/', '/'] else []) ++
    u.user.elim [] (fun user => userString user ++ ['@']) ++ escape .host u.host

def URL.hierString (u : URL) : List Char :=
  let path := u.escapedPath
  let slash := if path ≠ [] ∧ path.head? ≠ some '/' ∧ u.host ≠ [] then ['/'] else []
  let dot := if u.scheme = [] ∧ u.authorityString ++ slash = [] ∧ ':' ∈ (cut '/' path).1 then ['.', '/'] else []
  u.authorityString ++ slash ++ dot ++ path

def URL.string (u : URL) : List Char :=
  (if u.scheme ≠ [] then u.scheme ++ [':'] else []) ++
    (if u.opaqueData ≠ [] then u.opaqueData else u.hierString) ++
    (if u.forceQuery ∨ u.rawQuery ≠ [] then '?' :: u.rawQuery else []) ++
    (if u.fragment ≠ [] then '#' :: u.escapedFragment else [])

/-! ## Queries -/

/-- The pairs of a query as they are written: parts that hold a `;` and empty parts are left out. -/
def rawPairs (query : List Char) : List (List Char × List Char) :=
  ((query.splitOn '&').filter fun part => !part.contains ';' && part != []).map (cut '=')

def maxParams : Nat := 10000

/-- `URL.Query`: the pairs whose key and value can be decoded. -/
def parseQuery (query : List Char) : List (Bytes × Bytes) :=
  if maxParams < query.count '&' + 1 then []
  else (rawPairs query).filterMap fun (key, value) =>
    (unescape .queryComponent key).bind fun key => (unescape .queryComponent value).map fun value => (key, value)

def bytesLe : Bytes → Bytes → Bool
  | [], _ => true
  | _ :: _, [] => false
  | a :: s, b :: t => decide (a.toNat < b.toNat) || (a == b && bytesLe s t)

/-- `Values.Encode`: the keys in order, each with its values as they came. -/
def encodeValues (pairs : List (Bytes × Bytes)) : List Char :=
  let keys := (pairs.map Prod.fst).dedup.insertionSort (fun a b => bytesLe a b = true)
  ['&'].intercalate (keys.flatMap fun key => (pairs.filter (fun p => p.1 == key)).map fun p =>
    escape .queryComponent key ++ '=' :: escape .queryComponent p.2)

/-! ## What parsing keeps -/

theorem cut_append {c : Char} {a : List Char} (h : c ∉ a) (b : List Char) : cut c (a ++ c :: b) = (a, b) := by
  have ha : ∀ x ∈ a, (x != c) = true := fun x hx => bne_iff_ne.2 fun heq => h (heq ▸ hx)
  rw [cut, takeWhile_append_of_pos ha, dropWhile_append_of_pos ha, takeWhile_cons_of_neg (by simp),
    dropWhile_cons_of_neg (by simp), append_nil, tail_cons]

theorem cut_of_not_mem {c : Char} {s : List Char} (h : c ∉ s) : cut c s = (s, []) := by
  have hs : ∀ x ∈ s, (x != c) = true := fun x hx => bne_iff_ne.2 fun heq => h (heq ▸ hx)
  rw [cut, takeWhile_eq_self_iff.2 hs, dropWhile_eq_nil_iff.2 hs, tail_nil]

theorem cut_append_left {c : Char} {p : List Char} (h : c ∉ p) (s : List Char) : cut c (p ++ s) = (p ++ (cut c s).1, (cut c s).2) := by
  have hp : ∀ x ∈ p, (x != c) = true := fun x hx => bne_iff_ne.2 fun heq => h (heq ▸ hx)
  rw [cut, takeWhile_append_of_pos hp, dropWhile_append_of_pos hp]
  rfl

def isSchemeChar (c : Char) : Bool := c.isAlphanum || c == '+' || c == '-' || c == '.'

theorem getScheme_spec {s name rest : List Char} (h : getScheme s = some (name, rest)) :
    (name = [] ∧ rest = s) ∨ (s = name ++ ':' :: rest ∧ name ≠ [] ∧ ∀ c ∈ name, isSchemeChar c = true) := by
  unfold getScheme at h
  split at h
  · cases h
  · rename_i hne
    dsimp only at h
    split at h
    · rename_i rest' hdrop
      split at h
      · rename_i halpha
        cases h
        have hsplit := List.takeWhile_append_dropWhile (p := fun c : Char => c.isAlphanum || c == '+' || c == '-' || c == '.') (l := s)
        rw [hdrop] at hsplit
        refine Or.inr ⟨hsplit.symm, fun hnil => ?_, fun c hc => mem_takeWhile_imp (p := isSchemeChar) hc⟩
        rw [hnil] at hsplit
        exact hne rest hsplit.symm
      · cases h
        exact Or.inl ⟨rfl, rfl⟩
    · cases h
      exact Or.inl ⟨rfl, rfl⟩

theorem setPath_kept {u u' : URL} {p : List Char} (h : u.setPath p = some u') : u'.scheme = u.scheme ∧ u'.rawQuery = u.rawQuery := by
  obtain ⟨path, _, rfl⟩ := Option.map_eq_some_iff.1 h
  exact ⟨rfl, rfl⟩

theorem parseRef_spec {s : List Char} {u : URL} (h : parseRef s = some u) : (s = ['*'] ∧ u.scheme = [] ∧ u.rawQuery = []) ∨
    ∃ name rest, getScheme s = some (name, rest) ∧ u.scheme = name.map Char.toLower ∧ u.rawQuery = (cut '?' rest).2 := by
  unfold parseRef at h
  split at h
  · cases h
  · split at h
    · rename_i hs
      cases h
      exact Or.inl ⟨hs, rfl, rfl⟩
    · obtain ⟨⟨name, rest⟩, hscheme, h⟩ := Option.bind_eq_some_iff.1 h
      refine Or.inr ⟨name, rest, hscheme, ?_⟩
      dsimp only at h
      split at h
      · split at h
        · exact setPath_kept h
        · obtain ⟨⟨user, host⟩, _, h⟩ := Option.bind_eq_some_iff.1 h
          exact setPath_kept h
      · exact setPath_kept h
      · split at h
        · cases h
          exact ⟨rfl, rfl⟩
        · split at h
          · cases h
          · exact setPath_kept h

theorem parse_eq_some {s : List Char} {u : URL} (h : parse s = some u) :
    ∃ u', parseRef (cut '#' s).1 = some u' ∧ u.scheme = u'.scheme ∧ u.rawQuery = u'.rawQuery := by
  obtain ⟨u', href, h⟩ := Option.bind_eq_some_iff.1 h
  refine ⟨u', href, ?_⟩
  split at h
  · cases h
    exact ⟨rfl, rfl⟩
  · obtain ⟨fragment, _, rfl⟩ := Option.map_eq_some_iff.1 h
    exact ⟨rfl, rfl⟩

def queryText (s : List Char) : List Char := (cut '?' (cut '#' s).1).2

theorem isSchemeChar_ne {c : Char} (h : isSchemeChar c = true) : c ≠ '?' ∧ c ≠ '#' ∧ c ≠ ':' ∧ c ≠ '[' := by
  refine ⟨?_, ?_, ?_, ?_⟩ <;> rintro rfl <;> exact absurd h (by decide)

theorem cut_question {name : List Char} (hname : ∀ c ∈ name, isSchemeChar c = true) (rest : List Char) :
    (cut '?' (name ++ ':' :: rest)).2 = (cut '?' rest).2 := by
  have hnot : '?' ∉ name ++ [':'] := by
    rw [mem_append, mem_singleton]
    rintro (h | h)
    · exact (isSchemeChar_ne (hname _ h)).1 rfl
    · cases h
  have happ : name ++ ':' :: rest = (name ++ [':']) ++ rest := by simp
  rw [happ, cut_append_left hnot]

/-- **The query that is read** is what stands between the first `?` and the fragment. -/
theorem rawQuery_of_parse {s : List Char} {u : URL} (h : parse s = some u) : u.rawQuery = queryText s := by
  obtain ⟨u', href, _, hquery⟩ := parse_eq_some h
  rw [hquery, queryText]
  rcases parseRef_spec href with ⟨hs, _, hq⟩ | ⟨name, rest, hscheme, _, hq⟩
  · rw [hq, hs]
    decide
  · rw [hq]
    rcases getScheme_spec hscheme with ⟨rfl, rfl⟩ | ⟨hs, _, hname⟩
    · rfl
    · rw [hs, cut_question hname]

theorem scheme_of_parse {s : List Char} {u : URL} (h : parse s = some u) (hne : u.scheme ≠ []) :
    ∃ name rest, s = name ++ ':' :: rest ∧ u.scheme = name.map Char.toLower ∧ ∀ c ∈ name, isSchemeChar c = true := by
  obtain ⟨u', href, hscheme, _⟩ := parse_eq_some h
  rw [hscheme] at hne ⊢
  rcases parseRef_spec href with ⟨_, hs, _⟩ | ⟨name, rest, hread, hs, _⟩
  · exact absurd hs hne
  · rcases getScheme_spec hread with ⟨rfl, _⟩ | ⟨htext, _, hname⟩
    · exact absurd hs hne
    · obtain ⟨more, hmore⟩ : (cut '#' s).1 <+: s := takeWhile_prefix _
      exact ⟨name, rest ++ more, by rw [← hmore, htext]; simp, hs, hname⟩

end NetUrl
