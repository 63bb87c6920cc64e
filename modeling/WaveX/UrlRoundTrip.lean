import WaveX.HttpText

/-! # URLs

    `Url::parse` and `Url::to_string` of `src/Base/Url.cpp`.  The parser ends the authority at
    the first `/` of all that follows the scheme, at the first `?` when there is none, and
    then at the first `#`; the printer writes an IPv6 host without its brackets. -/

namespace UrlRoundTrip

open QuicVarInt HttpText List

/-! ## URLs -/

def hash : UInt8 := 0x23
def slash : UInt8 := 0x2f
def colon : UInt8 := 0x3a
def question : UInt8 := 0x3f
def atSign : UInt8 := 0x40
def bracketOpen : UInt8 := 0x5b
def bracketClose : UInt8 := 0x5d

/-- `Url`; port 0 stands for the port of the scheme. -/
structure Url where
  scheme : Bytes := []
  userinfo : Bytes := []
  host : Bytes := []
  path : Bytes := []
  query : Bytes := []
  fragment : Bytes := []
  port : UInt16 := 0
  deriving DecidableEq, Repr

/-- `to_string`. -/
def Url.toString (u : Url) : Bytes :=
  (if u.scheme ≠ [] then u.scheme ++ text "://" else []) ++
    ((if u.userinfo ≠ [] then u.userinfo ++ [atSign] else []) ++
      (u.host ++ ((if u.port ≠ 0 then colon :: decimal u.port.toNat else []) ++
        (u.path ++ ((if u.query ≠ [] then question :: u.query else []) ++
          if u.fragment ≠ [] then hash :: u.fragment else [])))))

/-! ## Parsing -/

/-- `rfind` of a character, with the `substr` before and after it. -/
def splitLast (c : UInt8) (s : Bytes) : Option (Bytes × Bytes) :=
  (splitFirst c s.reverse).map fun p => (p.2.reverse, p.1.reverse)

/-- The scheme in lower case, and what follows `://`. -/
def splitScheme (raw : Bytes) : Bytes × Bytes :=
  match findText (text "://") raw with
  | some schemeEnd => (lower (raw.take schemeEnd), raw.drop (schemeEnd + 3))
  | none => ([], raw)

/-- The authority: up to the first `/`, else up to the first `?`, else up to the first `#`. -/
def splitAuthority (s : Bytes) : Bytes × Bytes :=
  match splitFirst slash s with
  | some (authority, rest) => (authority, slash :: rest)
  | none =>
      match splitFirst question s with
      | some (authority, rest) => (authority, question :: rest)
      | none =>
          match splitFirst hash s with
          | some (authority, rest) => (authority, hash :: rest)
          | none => (s, [])

/-- The userinfo, up to the first `@`. -/
def splitUserinfo (authority : Bytes) : Bytes × Bytes :=
  match splitFirst atSign authority with
  | some (userinfo, rest) => (userinfo, rest)
  | none => ([], authority)

/-- `from_chars` into a port, which stays 0 without a digit and beyond 16 bits. -/
def portOf (s : Bytes) : UInt16 :=
  match fromChars s with
  | some (n, _) => if n < 2 ^ 16 then UInt16.ofNat n else 0
  | none => 0

/-- The host, in brackets or up to the last `:`, and the port. -/
def hostPort (authority : Bytes) : Bytes × UInt16 :=
  if authority.head? = some bracketOpen then
    match splitFirst bracketClose authority with
    | some (host, rest) =>
        (host.drop 1, if rest.head? = some colon then portOf (rest.drop 1) else 0)
    | none => ([], 0)
  else
    match splitLast colon authority with
    | some (host, port) => (host, portOf port)
    | none => (authority, 0)

/-- The path, up to the first `?` or `#`. -/
def splitPath (s : Bytes) : Bytes × Bytes :=
  if s.head? = some slash then s.span fun c => !(c == question || c == hash) else ([], s)

/-- The query, up to the first `#`. -/
def splitQuery (s : Bytes) : Bytes × Bytes :=
  if s.head? = some question then (s.drop 1).span fun c => !(c == hash) else ([], s)

/-- The fragment. -/
def fragmentOf (s : Bytes) : Bytes := if s.head? = some hash then s.drop 1 else []

/-- `Url::parse`. -/
def parse (raw : Bytes) : Url :=
  let (scheme, rest) := splitScheme raw
  let (authority, rest) := splitAuthority rest
  let (userinfo, authority) := splitUserinfo authority
  let (host, port) := hostPort authority
  let (path, rest) := splitPath rest
  let (query, rest) := splitQuery rest
  { scheme, userinfo, host, port, path, query, fragment := fragmentOf rest }

/-! ## The contract -/

/-- The reserved characters of RFC 3986. -/
def reserved : Bytes := text ":/?#[]@!$&()*+,;=" ++ [0x27]

/-- A lower-case letter, a digit, `+`, `-` or `.`. -/
def isSchemeChar (c : UInt8) : Bool :=
  decide (0x61 ≤ c ∧ c ≤ 0x7a) || isDigit c || decide (c ∈ text "+-.")

/-- A registered name: not empty, without reserved characters. -/
structure RegName (host : Bytes) : Prop where
  ne_nil : host ≠ []
  plain : ∀ c ∈ reserved, c ∉ host

/-- The characters of an IPv6 address, with a colon at least. -/
structure IPv6 (host : Bytes) : Prop where
  colon : colon ∈ host
  chars : ∀ c ∈ host, isHexDigit c = true ∨ c ∈ text ":."

/-- A URL whose parts are well formed. -/
structure WellFormed (u : Url) : Prop where
  scheme_ne : u.scheme ≠ []
  scheme : ∀ c ∈ u.scheme, isSchemeChar c = true
  userinfo : ∀ c ∈ text "@/?#", c ∉ u.userinfo
  host : RegName u.host ∨ IPv6 u.host
  path_front : u.path = [] ∨ u.path.head? = some slash
  path : question ∉ u.path ∧ hash ∉ u.path
  query : hash ∉ u.query

/-- What stands behind the authority is not taken for a path or a query: behind an empty path
    the query and the fragment have no `/`, and with an empty query too the fragment has no
    `?`.  A host with colons comes with a port. -/
structure Unambiguous (u : Url) : Prop where
  slash : u.path = [] → slash ∉ u.query ∧ slash ∉ u.fragment
  question : u.path = [] → u.query = [] → question ∉ u.fragment
  host : u.port = 0 → colon ∉ u.host

/-! ## Splitting -/

variable {c : UInt8}

/-- The text behind the last `c` begins where it says. -/
theorem splitLast_append {after : Bytes} (h : c ∉ after) (before : Bytes) :
    splitLast c (before ++ c :: after) = some (before, after) := by
  have hreverse : (before ++ c :: after).reverse = after.reverse ++ c :: before.reverse := by
    rw [reverse_append, reverse_cons, append_assoc, singleton_append]
  have hnot : c ∉ after.reverse := fun hmem => h (mem_reverse.mp hmem)
  rw [splitLast, hreverse, splitFirst_append hnot, Option.map_some, reverse_reverse,
    reverse_reverse]

theorem splitLast_none {s : Bytes} (h : c ∉ s) : splitLast c s = none := by
  have hnot : c ∉ s.reverse := fun hmem => h (mem_reverse.mp hmem)
  rw [splitLast, splitFirst_eq_none.mpr hnot, Option.map_none]

/-- The text before the last `c` is shorter. -/
theorem splitLast_shorter {s before after : Bytes} (h : splitLast c s = some (before, after)) :
    before.length < s.length := by
  obtain ⟨⟨x, y⟩, hsplit, heq⟩ := Option.map_eq_some_iff.mp h
  obtain ⟨rfl, -⟩ := Prod.mk.inj heq
  have hlen := congrArg List.length (splitFirst_eq_some.mp hsplit).1
  rw [length_reverse, length_append, length_cons] at hlen
  show y.reverse.length < s.length
  rw [length_reverse]
  omega

/-- A span ends where its predicate does. -/
theorem span_stop {p : UInt8 → Bool} {a rest : Bytes} (ha : ∀ c ∈ a, p c = true)
    (hrest : ∀ c ∈ rest.head?, p c = false) : (a ++ rest).span p = (a, rest) := by
  have hstop : rest.takeWhile p = [] ∧ rest.dropWhile p = rest := by
    cases rest with
    | nil => exact ⟨rfl, rfl⟩
    | cons c rest =>
      have hc : ¬ p c = true := by
        rw [hrest c rfl]
        exact Bool.false_ne_true
      exact ⟨takeWhile_cons_of_neg hc, dropWhile_cons_of_neg hc⟩
  rw [span_eq_takeWhile_dropWhile, takeWhile_append_of_pos ha,
    dropWhile_append_of_pos ha, hstop.1, hstop.2, append_nil]

/-- A port that was printed is read back. -/
theorem portOf_decimal (port : UInt16) : portOf (decimal port.toNat) = port := by
  have hfit : port.toNat < 2 ^ 16 := port.toNat_lt
  rw [portOf, fromChars_decimal (by omega)]
  dsimp only
  rw [if_pos hfit, UInt16.ofNat_toNat]

/-! ## The parts of a printed URL -/

/-- The userinfo with its `@`. -/
def Url.userinfoPart (u : Url) : Bytes := if u.userinfo ≠ [] then u.userinfo ++ [atSign] else []

/-- The port with its `:`. -/
def Url.portPart (u : Url) : Bytes := if u.port ≠ 0 then colon :: decimal u.port.toNat else []

def Url.authority (u : Url) : Bytes := u.userinfoPart ++ (u.host ++ u.portPart)

/-- The query with its `?`. -/
def Url.queryPart (u : Url) : Bytes := if u.query ≠ [] then question :: u.query else []

/-- The fragment with its `#`. -/
def Url.fragmentPart (u : Url) : Bytes := if u.fragment ≠ [] then hash :: u.fragment else []

/-- What is printed behind the authority. -/
def Url.tail (u : Url) : Bytes := u.path ++ (u.queryPart ++ u.fragmentPart)

section

variable {u : Url}

theorem toString_eq (h : WellFormed u) :
    u.toString = u.scheme ++ (text "://" ++ (u.authority ++ u.tail)) := by
  rw [Url.toString, if_pos h.scheme_ne, append_assoc]
  rw [show u.authority ++ u.tail = u.userinfoPart ++ (u.host ++ (u.portPart ++ u.tail)) by
    rw [Url.authority, append_assoc, append_assoc]]
  rfl

/-- A scheme has no letter that is put in lower case. -/
theorem asciiLower_schemeChar (h : isSchemeChar c = true) : asciiLower c = c := by
  rw [asciiLower, if_neg]
  rintro ⟨hle, hge⟩
  simp only [isSchemeChar, isDigit, Bool.or_eq_true, decide_eq_true_eq] at h
  rcases h with (⟨hlower, -⟩ | ⟨-, hdigit⟩) | hsign
  · exact absurd (UInt8.le_trans hlower hge) (by decide)
  · exact absurd (UInt8.le_trans hle hdigit) (by decide)
  · rw [show text "+-." = [0x2b, 0x2d, 0x2e] from rfl] at hsign
    simp only [mem_cons, not_mem_nil, or_false] at hsign
    rcases hsign with rfl | rfl | rfl <;> exact absurd hle (by decide)

/-- The scheme is taken off as it was printed. -/
theorem splitScheme_toString (h : WellFormed u) :
    splitScheme u.toString = (u.scheme, u.authority ++ u.tail) := by
  have hcolon : colon ∉ u.scheme := fun hmem => absurd (h.scheme colon hmem) (by decide)
  have hlower : lower u.scheme = u.scheme := by
    rw [lower, map_congr_left fun c hc => asciiLower_schemeChar (h.scheme c hc)]
    exact map_id _
  have hfound : findText (text "://") (u.scheme ++ (text "://" ++ (u.authority ++ u.tail))) =
      some u.scheme.length := by
    have hskip : findText (colon :: text "//")
        (u.scheme ++ (text "://" ++ (u.authority ++ u.tail))) = _ := findText_skip hcolon
    have hfront := findText_front (text "://") (u.authority ++ u.tail)
    rw [show text "://" = colon :: text "//" from rfl] at hskip hfront ⊢
    rw [hskip, hfront]
    rfl
  rw [splitScheme, toString_eq h, hfound]
  dsimp only
  rw [take_left, hlower, ← drop_drop, drop_left]
  rfl

/-- No host has a character that ends an authority or opens a bracket. -/
theorem host_plain (h : WellFormed u) (hc : c ∈ text "/?#[]@") : c ∉ u.host := by
  rcases h.host with hname | hip
  · have hreserved : text "/?#[]@" ⊆ reserved := by decide
    exact hname.plain c (hreserved hc)
  · intro hmem
    have hnone : (text "/?#[]@").all (fun c => !isHexDigit c && c ∉ text ":.") = true := by decide
    have hother := all_eq_true.mp hnone c hc
    rw [Bool.and_eq_true, Bool.not_eq_true', decide_eq_true_eq] at hother
    rcases hip.chars c hmem with hdigit | hsign
    · rw [hdigit] at hother
      exact Bool.noConfusion hother.1
    · exact hother.2 hsign

theorem portPart_plain (u : Url) (hc : c ∈ text "/?#[]@") : c ∉ u.portPart := by
  have hcolon : colon ∉ text "/?#[]@" := by decide
  have hnone : (text "/?#[]@").all (fun c => !isDigit c) = true := by decide
  have hdigit := Bool.not_eq_true' .. ▸ all_eq_true.mp hnone c hc
  rw [Url.portPart]
  split
  · intro hmem
    rcases mem_cons.mp hmem with heq | hmem
    · exact hcolon (heq ▸ hc)
    · rw [(decimal_digits _).1 c hmem] at hdigit
      exact absurd hdigit.symm Bool.false_ne_true
  · exact not_mem_nil

theorem authority_plain (h : WellFormed u) (hc : c ∈ text "/?#") :
    c ∉ u.authority := by
  have hother : text "/?#" ⊆ text "/?#[]@" := by decide
  have huser : text "/?#" ⊆ text "@/?#" := by decide
  have hat : atSign ∉ text "/?#" := by decide
  rw [Url.authority, mem_append, mem_append, not_or, not_or]
  refine ⟨?_, host_plain h (hother hc), portPart_plain u (hother hc)⟩
  rw [Url.userinfoPart]
  split
  · rw [mem_append, not_or]
    exact ⟨h.userinfo c (huser hc), fun hmem => hat (mem_singleton.mp hmem ▸ hc)⟩
  · exact not_mem_nil

/-! ## The authority -/

/-- What is printed behind an empty path has neither `/` nor `?` if its parts have none. -/
theorem tail_plain (hc : c ∈ text "/?") (hpath : u.path = []) (hquery : c ∉ u.queryPart)
    (hfragment : c ∉ u.fragment) : c ∉ u.tail := by
  have hhash : hash ∉ text "/?" := by decide
  rw [Url.tail, hpath, nil_append, mem_append, not_or]
  refine ⟨hquery, ?_⟩
  rw [Url.fragmentPart]
  split
  · intro hmem
    rcases mem_cons.mp hmem with heq | hmem
    · exact hhash (heq ▸ hc)
    · exact hfragment hmem
  · exact not_mem_nil

/-- The authority ends where it was printed. -/
theorem splitAuthority_tail (h : WellFormed u)
    (hslash : u.path = [] → slash ∉ u.query ∧ slash ∉ u.fragment)
    (hquestion : u.path = [] → u.query = [] → question ∉ u.fragment) :
    splitAuthority (u.authority ++ u.tail) = (u.authority, u.tail) := by
  have hnot : ∀ {c : UInt8}, c ∈ text "/?#" → c ∉ u.tail → splitFirst c (u.authority ++ u.tail) =
      none := by
    intro c hc htail
    rw [splitFirst_eq_none, mem_append, not_or]
    exact ⟨authority_plain h hc, htail⟩
  rw [splitAuthority]
  rcases h.path_front with hpath | hpath
  · obtain ⟨hq, hf⟩ := hslash hpath
    have hqueryPart : slash ∉ u.queryPart := by
      rw [Url.queryPart]
      split
      · rw [mem_cons, not_or]
        exact ⟨by decide, hq⟩
      · exact not_mem_nil
    rw [hnot (by decide) (tail_plain (by decide) hpath hqueryPart hf)]
    dsimp only
    by_cases hempty : u.query = []
    · have hqueryNil : u.queryPart = [] := by
        rw [Url.queryPart, if_neg (not_not.mpr hempty)]
      have hmark : question ∉ u.queryPart := by
        rw [hqueryNil]
        exact not_mem_nil
      rw [hnot (by decide)
        (tail_plain (by decide) hpath hmark (hquestion hpath hempty))]
      dsimp only
      rw [Url.tail, hpath, hqueryNil, nil_append, nil_append, Url.fragmentPart]
      by_cases hfragment : u.fragment = []
      · have hnone : splitFirst hash u.authority = none :=
          splitFirst_eq_none.mpr (authority_plain h (by decide))
        rw [if_neg (not_not.mpr hfragment), append_nil, hnone]
      · rw [if_pos hfragment, splitFirst_append (authority_plain h (by decide))]
    · rw [Url.tail, hpath, nil_append, Url.queryPart, if_pos hempty, cons_append,
        splitFirst_append (authority_plain h (by decide))]
  · obtain ⟨path, hslashed⟩ := head?_eq_some_iff.mp hpath
    rw [Url.tail, hslashed, cons_append,
      splitFirst_append (authority_plain h (by decide))]

/-- The userinfo ends where it was printed. -/
theorem splitUserinfo_authority (h : WellFormed u) :
    splitUserinfo u.authority = (u.userinfo, u.host ++ u.portPart) := by
  rw [splitUserinfo, Url.authority, Url.userinfoPart]
  by_cases huser : u.userinfo = []
  · have hnone : splitFirst atSign (u.host ++ u.portPart) = none := by
      rw [splitFirst_eq_none, mem_append, not_or]
      exact ⟨host_plain h (by decide), portPart_plain u (by decide)⟩
    rw [if_neg (not_not.mpr huser), nil_append, hnone, huser]
  · rw [if_pos huser, append_assoc, singleton_append,
      splitFirst_append (h.userinfo atSign (by decide))]

theorem host_ne_nil (h : WellFormed u) : u.host ≠ [] := by
  rcases h.host with hname | hip
  · exact hname.ne_nil
  · exact ne_nil_of_mem hip.colon

/-- The host and the port are read back exactly if a host with colons comes with a port. -/
theorem hostPort_iff (h : WellFormed u) :
    hostPort (u.host ++ u.portPart) = (u.host, u.port) ↔ (u.port = 0 → colon ∉ u.host) := by
  have hhead : (u.host ++ u.portPart).head? ≠ some bracketOpen := by
    cases hhost : u.host with
    | nil => exact absurd hhost (host_ne_nil h)
    | cons c host =>
      rw [cons_append, head?_cons]
      intro heq
      have hmem : bracketOpen ∈ u.host := by
        rw [hhost, Option.some.inj heq]
        exact mem_cons_self
      exact host_plain h (by decide) hmem
  rw [hostPort, if_neg hhead]
  by_cases hport : u.port = 0
  · rw [Url.portPart, if_neg (not_not.mpr hport), append_nil]
    by_cases hcolon : colon ∈ u.host
    · have hsome : splitLast colon u.host ≠ none := by
        intro hnone
        rw [splitLast, Option.map_eq_none_iff, splitFirst_eq_none] at hnone
        exact hnone (mem_reverse.mpr hcolon)
      obtain ⟨⟨before, after⟩, hsplit⟩ := Option.ne_none_iff_exists'.mp hsome
      rw [hsplit]
      refine iff_of_false ?_ fun hnot => hnot hport hcolon
      intro heq
      have hshort := splitLast_shorter hsplit
      rw [(Prod.mk.inj heq).1] at hshort
      exact absurd hshort (Nat.lt_irrefl _)
    · rw [splitLast_none hcolon, hport]
      exact iff_of_true rfl fun _ => hcolon
  · have hdigits : colon ∉ decimal u.port.toNat := by
      intro hmem
      exact absurd ((decimal_digits _).1 colon hmem) (by decide)
    rw [Url.portPart, if_pos hport, splitLast_append hdigits]
    dsimp only
    rw [portOf_decimal]
    exact iff_of_true rfl fun hzero => absurd hzero hport

/-! ## Path, query and fragment -/

/-- What follows the path begins with `?` or `#`. -/
theorem head_tail (hc : c ∈ (u.queryPart ++ u.fragmentPart).head?) :
    c = question ∨ c = hash := by
  rw [Url.queryPart, Url.fragmentPart] at hc
  split at hc
  · exact .inl (Option.some.inj hc).symm
  · split at hc
    · exact .inr (Option.some.inj hc).symm
    · cases hc

theorem splitPath_tail (h : WellFormed u) :
    splitPath u.tail = (u.path, u.queryPart ++ u.fragmentPart) := by
  rw [splitPath, Url.tail]
  rcases h.path_front with hpath | hpath
  · have hhead : (u.queryPart ++ u.fragmentPart).head? ≠ some slash := by
      intro hslash
      rcases head_tail hslash with heq | heq
      · exact absurd heq (by decide)
      · exact absurd heq (by decide)
    rw [hpath, nil_append, if_neg hhead]
  · have hhead : (u.path ++ (u.queryPart ++ u.fragmentPart)).head? = some slash := by
      rw [head?_append, hpath]
      rfl
    rw [if_pos hhead]
    refine span_stop ?_ ?_
    · intro c hc
      rw [Bool.not_eq_true', Bool.or_eq_false_iff, beq_eq_false_iff_ne, beq_eq_false_iff_ne]
      exact ⟨fun heq => h.path.1 (heq ▸ hc), fun heq => h.path.2 (heq ▸ hc)⟩
    · intro c hc
      rcases head_tail hc with rfl | rfl
      · rfl
      · rfl

theorem splitQuery_tail (h : WellFormed u) :
    splitQuery (u.queryPart ++ u.fragmentPart) = (u.query, u.fragmentPart) := by
  have hfragment : ∀ c ∈ u.fragmentPart.head?, c = hash := by
    intro c hc
    rw [Url.fragmentPart] at hc
    split at hc
    · exact (Option.some.inj hc).symm
    · cases hc
  rw [splitQuery, Url.queryPart]
  by_cases hquery : u.query = []
  · have hhead : u.fragmentPart.head? ≠ some question := by
      intro hmark
      exact absurd (hfragment question hmark) (by decide)
    rw [if_neg (not_not.mpr hquery), nil_append, if_neg hhead, hquery]
  · rw [if_pos hquery, cons_append, head?_cons, if_pos rfl]
    refine span_stop ?_ ?_
    · intro c hc
      rw [Bool.not_eq_true', beq_eq_false_iff_ne]
      exact fun heq => h.query (heq ▸ hc)
    · intro c hc
      rw [hfragment c hc]
      rfl

theorem fragmentOf_tail (u : Url) : fragmentOf u.fragmentPart = u.fragment := by
  rw [fragmentOf, Url.fragmentPart]
  by_cases hfragment : u.fragment = []
  · rw [if_neg (not_not.mpr hfragment), hfragment]
    rfl
  · rw [if_pos hfragment]
    rfl

/-- What is read as the fragment behind a `?` is not longer than what follows the `?`. -/
theorem fragmentOf_length (s : Bytes) :
    (fragmentOf (splitQuery (question :: s)).2).length ≤ s.length := by
  have hle : ∀ t : Bytes, (fragmentOf t).length ≤ t.length := by
    intro t
    rw [fragmentOf]
    split
    · rw [length_drop]
      omega
    · exact Nat.zero_le _
  refine (hle _).trans ?_
  rw [splitQuery, head?_cons, if_pos rfl, span_eq_takeWhile_dropWhile]
  exact (dropWhile_suffix _).length_le

/-! ## The round trip -/

/-- Where the authority ends as printed, all but the host and the port are read back. -/
theorem parse_parts (h : WellFormed u)
    (hslash : u.path = [] → slash ∉ u.query ∧ slash ∉ u.fragment)
    (hquestion : u.path = [] → u.query = [] → question ∉ u.fragment) :
    parse u.toString = { u with
      host := (hostPort (u.host ++ u.portPart)).1
      port := (hostPort (u.host ++ u.portPart)).2 } := by
  rw [parse, splitScheme_toString h]
  dsimp only
  rw [splitAuthority_tail h hslash hquestion]
  dsimp only
  rw [splitUserinfo_authority h, splitPath_tail h]
  dsimp only
  rw [splitQuery_tail h]
  dsimp only
  rw [fragmentOf_tail]

/-- Behind an empty path a `/` is taken for the path. -/
theorem parse_slash (h : WellFormed u) (hpath : u.path = [])
    (hslash : slash ∈ u.query ∨ slash ∈ u.fragment) : (parse u.toString).path ≠ u.path := by
  have htail : slash ∈ u.authority ++ u.tail := by
    refine mem_append_right _ ?_
    rw [Url.tail, hpath, nil_append]
    rcases hslash with hmem | hmem
    · refine mem_append_left _ ?_
      rw [Url.queryPart, if_pos (ne_nil_of_mem hmem)]
      exact mem_cons_of_mem _ hmem
    · refine mem_append_right _ ?_
      rw [Url.fragmentPart, if_pos (ne_nil_of_mem hmem)]
      exact mem_cons_of_mem _ hmem
  obtain ⟨front, rest, hsplit, hfront⟩ := eq_append_cons_of_mem htail
  rw [parse, splitScheme_toString h, hpath]
  dsimp only
  rw [splitAuthority, hsplit, splitFirst_append hfront]
  dsimp only
  rw [splitPath, head?_cons, if_pos rfl, span_eq_takeWhile_dropWhile,
    takeWhile_cons_of_pos (by decide)]
  exact cons_ne_nil _ _

/-- Behind an empty path and an empty query a `?` is taken for the query. -/
theorem parse_question (h : WellFormed u) (hpath : u.path = []) (hquery : u.query = [])
    (hslash : slash ∉ u.fragment) (hmark : question ∈ u.fragment) :
    (parse u.toString).fragment ≠ u.fragment := by
  obtain ⟨front, rest, hsplit, hfront⟩ := eq_append_cons_of_mem hmark
  have htail : u.tail = hash :: u.fragment := by
    rw [Url.tail, hpath, Url.queryPart, if_neg (not_not.mpr hquery), Url.fragmentPart,
      if_pos (ne_nil_of_mem hmark)]
    rfl
  have hnone : splitFirst slash (u.authority ++ u.tail) = none := by
    rw [splitFirst_eq_none, htail, mem_append, mem_cons, not_or, not_or]
    exact ⟨authority_plain h (by decide), by decide, hslash⟩
  have hbefore : question ∉ u.authority ++ hash :: front := by
    rw [mem_append, mem_cons, not_or, not_or]
    exact ⟨authority_plain h (by decide), by decide, hfront⟩
  have htext : u.authority ++ u.tail = (u.authority ++ hash :: front) ++ question :: rest := by
    rw [htail, hsplit, append_assoc, cons_append]
  rw [parse, splitScheme_toString h]
  dsimp only
  rw [splitAuthority, hnone]
  dsimp only
  rw [htext, splitFirst_append hbefore]
  dsimp only
  -- the fragment is read from behind the `?`
  intro heq
  have hlen : (fragmentOf (splitQuery (question :: rest)).2).length = u.fragment.length :=
    congrArg List.length heq
  have hle := fragmentOf_length rest
  have htotal := congrArg List.length hsplit
  rw [length_append, length_cons] at htotal
  omega

/-- **Printing and parsing**: a well-formed URL is read back exactly if it is unambiguous. -/
theorem parse_toString_iff (h : WellFormed u) : parse u.toString = u ↔ Unambiguous u := by
  by_cases hslash : u.path = [] → slash ∉ u.query ∧ slash ∉ u.fragment
  · by_cases hquestion : u.path = [] → u.query = [] → question ∉ u.fragment
    · rw [parse_parts h hslash hquestion]
      constructor
      · intro heq
        have hhost : (hostPort (u.host ++ u.portPart)).1 = u.host := congrArg Url.host heq
        have hport : (hostPort (u.host ++ u.portPart)).2 = u.port := congrArg Url.port heq
        exact ⟨hslash, hquestion, (hostPort_iff h).mp (Prod.ext hhost hport)⟩
      · intro hclear
        rw [(hostPort_iff h).mpr hclear.host]
    · rw [not_forall] at hquestion
      obtain ⟨hpath, hquestion⟩ := hquestion
      rw [not_forall] at hquestion
      obtain ⟨hquery, hmark⟩ := hquestion
      refine iff_of_false ?_ fun hclear => hmark (hclear.question hpath hquery)
      intro heq
      exact parse_question h hpath hquery (hslash hpath).2 (not_not.mp hmark)
        (congrArg Url.fragment heq)
  · rw [not_forall] at hslash
    obtain ⟨hpath, hslash⟩ := hslash
    rw [not_and_or, not_not, not_not] at hslash
    refine iff_of_false ?_ ?_
    · intro heq
      exact parse_slash h hpath hslash (congrArg Url.path heq)
    · intro hclear
      rcases hslash with hmem | hmem
      · exact (hclear.slash hpath).1 hmem
      · exact (hclear.slash hpath).2 hmem

end

/-- The local host with an IPv6 address. -/
def loopback (port : UInt16) : Url :=
  { scheme := text "http", host := text "::1", path := [slash], port }

theorem loopback_wellFormed (port : UInt16) : WellFormed (loopback port) where
  scheme_ne := cons_ne_nil _ _
  scheme := all_eq_true.mp (show (text "http").all isSchemeChar = true by decide)
  userinfo := fun _ _ => not_mem_nil
  host := .inr {
    colon := show colon ∈ text "::1" by decide
    chars := by
      intro c hc
      have hall : (text "::1").all (fun c => isHexDigit c || c ∈ text ":.") = true := by decide
      have hchar := all_eq_true.mp hall c hc
      rwa [Bool.or_eq_true, decide_eq_true_eq] at hchar }
  path_front := .inr rfl
  path := show question ∉ [slash] ∧ hash ∉ [slash] by decide
  query := not_mem_nil

/-- With a port the address is read back. -/
theorem parse_toString_iff_loopback :
    parse (loopback 80).toString = loopback 80 ↔ Unambiguous (loopback 80) :=
  parse_toString_iff (loopback_wellFormed 80)

/-- Without one the last group of the address is taken for the port. -/
theorem loopback_not_read_back :
    ¬ (WellFormed (loopback 0) → parse (loopback 0).toString = loopback 0) := by
  intro h
  exact absurd (h (loopback_wellFormed 0)) (by decide +kernel)

end UrlRoundTrip
