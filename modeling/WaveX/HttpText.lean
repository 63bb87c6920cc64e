import WaveX.VarInt

/-! # Methods, names and numbers

    What the codecs of all HTTP versions share: the methods of
    `include/wavex/protos/http/Methods.hpp` with their names, the locale-free
    comparison of header names, and decimal numbers.  Text is a list of bytes. -/

namespace HttpText

open QuicVarInt List

/-! ## Methods -/

/-- `method`. -/
inductive Method where
  | get
  | post
  | put
  | delete
  | head
  | options
  | patch
  | trace
  | connect
  | query
  | unknown
  deriving DecidableEq, Repr

/-- `to_string` of a method. -/
def Method.name : Method → Bytes
  | .get => text "GET"
  | .post => text "POST"
  | .put => text "PUT"
  | .delete => text "DELETE"
  | .head => text "HEAD"
  | .options => text "OPTIONS"
  | .patch => text "PATCH"
  | .trace => text "TRACE"
  | .connect => text "CONNECT"
  | .query => text "QUERY"
  | .unknown => text "UNKNOWN"

/-- `from_string` of a method: the names are those of `to_string`, and anything else is
    unknown. -/
def Method.ofName (m : Bytes) : Method :=
  if m = text "GET" then .get
  else if m = text "POST" then .post
  else if m = text "PUT" then .put
  else if m = text "PATCH" then .patch
  else if m = text "DELETE" then .delete
  else if m = text "HEAD" then .head
  else if m = text "OPTIONS" then .options
  else if m = text "TRACE" then .trace
  else if m = text "CONNECT" then .connect
  else if m = text "QUERY" then .query
  else .unknown

theorem Method.ofName_name (m : Method) (h : m ≠ .unknown) : Method.ofName m.name = m := by
  cases m with
  | unknown => exact absurd rfl h
  | _ => decide

theorem Method.ofName_connect {m : Bytes} : Method.ofName m = .connect ↔ m = text "CONNECT" := by
  constructor
  · intro h
    rw [Method.ofName] at h
    repeat (split at h; · cases h)
    split at h
    · assumption
    · split at h
      · cases h
      · cases h
  · rintro rfl
    exact Method.ofName_name .connect (by rintro ⟨⟩)

/-! ## Names -/

/-- `ascii_lower`; `std::tolower` of an unsigned char is the same in the C locale. -/
def asciiLower (c : UInt8) : UInt8 := if 0x41 ≤ c ∧ c ≤ 0x5a then c ||| 0x20 else c

/-- A string in lower case. -/
def lower (s : Bytes) : Bytes := s.map asciiLower

/-- `is_equal`: equal up to the case of ASCII letters. -/
def isEqual (a b : Bytes) : Bool := lower a == lower b

/-- A name that starts with a colon is a pseudo-header. -/
def isPseudo (name : Bytes) : Bool := name.head? == some 0x3a

theorem asciiLower_idem : ∀ c, asciiLower (asciiLower c) = asciiLower c := by decide +kernel

theorem lower_idem (s : Bytes) : lower (lower s) = lower s := by
  rw [lower, lower, map_map]
  congr 1
  funext c
  exact asciiLower_idem c

theorem isEqual_iff {a b : Bytes} : isEqual a b = true ↔ lower a = lower b := beq_iff_eq

/-! ## Searching -/

/-- `find` of a character, with the `substr` before and after it. -/
def splitFirst (c : UInt8) : Bytes → Option (Bytes × Bytes)
  | [] => none
  | b :: s => if b = c then some ([], s) else (splitFirst c s).map fun p => (b :: p.1, p.2)

/-- `find` of a text: where it stands first. -/
def findText (pattern : Bytes) : Bytes → Option Nat
  | [] => if pattern = [] then some 0 else none
  | b :: s =>
      if pattern.isPrefixOf (b :: s) then some 0 else (findText pattern s).map (· + 1)

variable {c : UInt8}

theorem splitFirst_eq_none {s : Bytes} : splitFirst c s = none ↔ c ∉ s := by
  induction s with
  | nil => exact iff_of_true rfl not_mem_nil
  | cons b s ih =>
    rw [splitFirst, mem_cons, not_or]
    by_cases hb : b = c
    · rw [if_pos hb]
      exact iff_of_false nofun fun h => h.1 hb.symm
    · rw [if_neg hb, Option.map_eq_none_iff, ih]
      exact ⟨fun h => ⟨fun heq => hb heq.symm, h⟩, fun h => h.2⟩

theorem splitFirst_eq_some {s before after : Bytes} :
    splitFirst c s = some (before, after) ↔ s = before ++ c :: after ∧ c ∉ before := by
  induction s generalizing before with
  | nil => exact iff_of_false nofun fun h => nomatch (append_eq_nil_iff.mp h.1.symm).2
  | cons b s ih =>
    rw [splitFirst]
    by_cases hb : b = c
    · rw [if_pos hb, Option.some_inj, Prod.mk.injEq]
      subst hb
      constructor
      · rintro ⟨rfl, rfl⟩
        exact ⟨rfl, not_mem_nil⟩
      · rintro ⟨hs, hbefore⟩
        cases before with
        | nil => exact ⟨rfl, (List.cons.inj hs).2⟩
        | cons x before =>
          rw [cons_append] at hs
          rw [(List.cons.inj hs).1] at hbefore
          exact absurd mem_cons_self hbefore
    · rw [if_neg hb, Option.map_eq_some_iff]
      constructor
      · rintro ⟨⟨before', after'⟩, hsplit, hp⟩
        obtain ⟨rfl, rfl⟩ := Prod.mk.inj hp
        obtain ⟨rfl, hnot⟩ := ih.mp hsplit
        refine ⟨rfl, fun hmem => ?_⟩
        obtain heq | hmem := mem_cons.mp hmem
        · exact hb heq.symm
        · exact hnot hmem
      · rintro ⟨hs, hbefore⟩
        cases before with
        | nil => exact absurd (List.cons.inj hs).1 hb
        | cons x before =>
          rw [cons_append] at hs
          obtain ⟨rfl, rfl⟩ := List.cons.inj hs
          exact ⟨(before, after), ih.mpr ⟨rfl, fun h => hbefore (mem_cons_of_mem _ h)⟩, rfl⟩

/-- The text before the first `c` ends where it says. -/
theorem splitFirst_append {before : Bytes} (h : c ∉ before) (after : Bytes) :
    splitFirst c (before ++ c :: after) = some (before, after) :=
  splitFirst_eq_some.mpr ⟨rfl, h⟩

theorem findText_isSome {pattern s : Bytes} :
    (findText pattern s).isSome = true ↔ pattern <:+: s := by
  induction s with
  | nil =>
    rw [findText, infix_nil]
    by_cases hnil : pattern = []
    · rw [if_pos hnil]
      exact iff_of_true rfl hnil
    · rw [if_neg hnil]
      exact iff_of_false nofun hnil
  | cons b s ih =>
    rw [findText, infix_cons_iff, ← ih]
    by_cases hstart : pattern.isPrefixOf (b :: s) = true
    · rw [if_pos hstart]
      exact iff_of_true rfl (.inl (List.isPrefixOf_iff_prefix.mp hstart))
    · rw [if_neg hstart, Option.isSome_map]
      exact ⟨.inr, fun h => h.resolve_left fun hp => hstart (List.isPrefixOf_iff_prefix.mpr hp)⟩

/-- A text that starts nowhere before is found where it stands. -/
theorem findText_append {pattern before after : Bytes}
    (h : ∀ i < before.length, ¬ pattern <+: (before ++ (pattern ++ after)).drop i) :
    findText pattern (before ++ (pattern ++ after)) = some before.length := by
  induction before with
  | nil =>
    have hstart : pattern.isPrefixOf (pattern ++ after) = true :=
      isPrefixOf_iff_prefix.mpr (prefix_append _ _)
    rw [nil_append, length_nil]
    cases hs : pattern ++ after with
    | nil => rw [findText, if_pos (append_eq_nil_iff.mp hs).1]
    | cons b s =>
      rw [hs] at hstart
      rw [findText, if_pos hstart]
  | cons b before ih =>
    have hnot : ¬ pattern.isPrefixOf (b :: (before ++ (pattern ++ after))) = true := by
      intro hstart
      exact h 0 (Nat.succ_pos _) (List.isPrefixOf_iff_prefix.mp hstart)
    rw [cons_append, findText, if_neg hnot, ih, Option.map_some, length_cons]
    intro i hi
    exact h (i + 1) (Nat.succ_lt_succ hi)

/-- A text does not start where its first byte does not occur. -/
theorem findText_skip {tail before s : Bytes} (h : c ∉ before) :
    findText (c :: tail) (before ++ s) = (findText (c :: tail) s).map (before.length + ·) := by
  induction before with
  | nil =>
    rw [nil_append, length_nil]
    simp only [Nat.zero_add, Option.map_id']
  | cons b before ih =>
    rw [mem_cons, not_or] at h
    have hnot : ¬ (c :: tail).isPrefixOf (b :: (before ++ s)) = true := by
      intro hstart
      obtain ⟨rest, hrest⟩ := isPrefixOf_iff_prefix.mp hstart
      exact h.1 (List.cons.inj hrest).1
    rw [cons_append, findText, if_neg hnot, ih h.2, Option.map_map]
    congr 1
    funext n
    simp only [Function.comp, length_cons]
    omega

/-- A text at the front is found there. -/
theorem findText_front (pattern after : Bytes) : findText pattern (pattern ++ after) = some 0 := by
  have hnone : ∀ i < ([] : Bytes).length, ¬ pattern <+: ([] ++ (pattern ++ after)).drop i :=
    fun i hi => absurd hi (Nat.not_lt_zero i)
  exact findText_append hnone

/-- A text that ends with a byte `c` it has nowhere else starts at the front only if that
    `c` is the first one. -/
theorem prefix_sentinel {p before after : Bytes} (hp : c ∉ p) (hbefore : c ∉ before)
    (h : p ++ [c] <+: before ++ c :: after) : p = before := by
  obtain ⟨rest, hrest⟩ := h
  rw [append_assoc, singleton_append] at hrest
  have hsplit : splitFirst c (before ++ c :: after) = some (p, rest) :=
    splitFirst_eq_some.mpr ⟨hrest.symm, hp⟩
  rw [splitFirst_append hbefore] at hsplit
  exact (Prod.mk.inj (Option.some.inj hsplit)).1.symm

/-- Such a text is not found before the first `c` unless it ends there. -/
theorem findText_sentinel_skip {p before after : Bytes} (hp : c ∉ p) (hbefore : c ∉ before)
    (hsuffix : ¬ p <:+ before) :
    findText (p ++ [c]) (before ++ c :: after) =
      (findText (p ++ [c]) after).map (before.length + 1 + ·) := by
  induction before with
  | nil =>
    have hnot : ¬ (p ++ [c]).isPrefixOf (c :: after) = true := by
      intro hstart
      have hnil : p = [] := prefix_sentinel hp not_mem_nil
        (show p ++ [c] <+: [] ++ c :: after from isPrefixOf_iff_prefix.mp hstart)
      exact hsuffix (hnil ▸ nil_suffix)
    rw [nil_append, findText, if_neg hnot]
    congr 1
    funext n
    rw [length_nil]
    omega
  | cons b before ih =>
    have hnot : ¬ (p ++ [c]).isPrefixOf (b :: (before ++ c :: after)) = true := by
      intro hstart
      have heq : p = b :: before :=
        prefix_sentinel hp hbefore (List.isPrefixOf_iff_prefix.mp hstart)
      exact hsuffix (heq ▸ suffix_refl _)
    rw [cons_append, findText, if_neg hnot,
      ih (fun h => hbefore (mem_cons_of_mem _ h))
        (fun h => hsuffix (h.trans (suffix_cons _ _))), Option.map_map]
    congr 1
    funext n
    simp only [Function.comp, length_cons]
    omega

/-- Such a text is found when it ends with the first `c`. -/
theorem findText_sentinel {p before after : Bytes} (hbefore : c ∉ before ++ p) :
    findText (p ++ [c]) (before ++ (p ++ [c] ++ after)) = some before.length := by
  rw [mem_append, not_or] at hbefore
  refine findText_append ?_
  intro i hi h
  rw [append_assoc, singleton_append, drop_append_of_le_length hi.le,
    ← append_assoc] at h
  have hnot : c ∉ before.drop i ++ p := by
    rw [mem_append, not_or]
    exact ⟨fun hmem => hbefore.1 (mem_of_mem_drop hmem), hbefore.2⟩
  have heq := congrArg List.length (prefix_sentinel hbefore.2 hnot h)
  rw [length_append, length_drop] at heq
  omega

/-- A text without the byte `c` is not found across a `c`. -/
theorem findText_separated {pattern before after : Bytes} (hc : c ∉ pattern) (hne : pattern ≠ [])
    (hnot : ¬ pattern <:+: before) :
    findText pattern (before ++ c :: after) =
      (findText pattern after).map (before.length + 1 + ·) := by
  -- a match that starts before `c` would contain it
  have hstart {s : Bytes} (hs : ¬ pattern <+: s) : ¬ pattern <+: s ++ c :: after := by
    intro h
    have hsep : s ++ [c] <+: s ++ c :: after := ⟨after, by simp⟩
    rcases prefix_or_prefix_of_prefix h hsep with hin | hout
    · rcases prefix_concat_iff.mp hin with heq | hbefore
      · exact hc (heq ▸ mem_append_right _ (mem_singleton.mpr rfl))
      · exact hs hbefore
    · exact hc (hout.subset (mem_append_right _ (mem_singleton.mpr rfl)))
  induction before with
  | nil =>
    have hfirst : ¬ pattern.isPrefixOf (c :: after) = true := fun h =>
      hstart (s := []) (fun hnil => hne (prefix_nil.mp hnil)) (List.isPrefixOf_iff_prefix.mp h)
    rw [nil_append, findText, if_neg hfirst]
    congr 1
    funext n
    rw [length_nil]
    omega
  | cons b before ih =>
    have hfirst : ¬ pattern.isPrefixOf (b :: (before ++ c :: after)) = true := fun h =>
      hstart (s := b :: before) (fun hpre => hnot hpre.isInfix) (List.isPrefixOf_iff_prefix.mp h)
    rw [cons_append, findText, if_neg hfirst,
      ih (fun h => hnot (h.trans (suffix_cons _ _).isInfix)), Option.map_map]
    congr 1
    funext n
    simp only [Function.comp, length_cons]
    omega

/-! ## Numbers -/

/-- `std::to_chars` of an unsigned number. -/
def decimal (n : Nat) : Bytes := (Nat.toDigits 10 n).map fun c => UInt8.ofNat c.toNat

/-- `std::to_chars` with base 16. -/
def hexadecimal (n : Nat) : Bytes := (Nat.toDigits 16 n).map fun c => UInt8.ofNat c.toNat

def isDigit (c : UInt8) : Bool := decide (0x30 ≤ c ∧ c ≤ 0x39)

/-- The value of a hexadecimal digit of either case. -/
def hexValue (c : UInt8) : Option Nat :=
  if 0x30 ≤ c ∧ c ≤ 0x39 then some (c.toNat - 0x30)
  else if 0x41 ≤ c ∧ c ≤ 0x46 then some (c.toNat - 0x41 + 10)
  else if 0x61 ≤ c ∧ c ≤ 0x66 then some (c.toNat - 0x61 + 10)
  else none

def isHexDigit (c : UInt8) : Bool := (hexValue c).isSome

/-- The number that digits spell. -/
def digitsValue (digits : Bytes) : Nat :=
  digits.foldl (fun n c => n * 10 + (c.toNat - 0x30)) 0

/-- The number that hexadecimal digits spell. -/
def hexDigitsValue (digits : Bytes) : Nat :=
  digits.foldl (fun n c => n * 16 + (hexValue c).getD 0) 0

/-- `std::from_chars` into a 64-bit unsigned number: the digits at the start and how many
    they are, `none` without a digit or beyond 64 bits. -/
def fromChars (s : Bytes) : Option (Nat × Nat) :=
  let digits := s.takeWhile isDigit
  if digits = [] ∨ digitsValue digits ≥ 2 ^ 64 then none
  else some (digitsValue digits, digits.length)

/-- `std::from_chars` with base 16. -/
def fromCharsHex (s : Bytes) : Option (Nat × Nat) :=
  let digits := s.takeWhile isHexDigit
  if digits = [] ∨ hexDigitsValue digits ≥ 2 ^ 64 then none
  else some (hexDigitsValue digits, digits.length)

/-- `parse_content_length`, the strict reading of a length: digits and nothing else. -/
def parseContentLength (v : Bytes) : Option Nat :=
  match fromChars v with
  | some (n, digits) => if digits = v.length then some n else none
  | none => none

theorem fromChars_lt {s : Bytes} {n digits : Nat} (h : fromChars s = some (n, digits)) :
    n < 2 ^ 64 := by
  rw [fromChars] at h
  split at h
  · cases h
  · rename_i hok
    cases h
    exact Nat.not_le.mp fun hbig => hok (.inr hbig)

theorem fromCharsHex_lt {s : Bytes} {n digits : Nat} (h : fromCharsHex s = some (n, digits)) :
    n < 2 ^ 64 := by
  rw [fromCharsHex] at h
  split at h
  · cases h
  · rename_i hok
    cases h
    exact Nat.not_le.mp fun hbig => hok (.inr hbig)

/-- The digits of a number spell the number, in any base whose digits are read back. -/
theorem toDigits_spell {base : Nat} (hbase : 1 < base) {isOk : UInt8 → Bool} {value : UInt8 → Nat}
    (hdigit : ∀ d < base, isOk (UInt8.ofNat d.digitChar.toNat) = true ∧
      value (UInt8.ofNat d.digitChar.toNat) = d) (n : Nat) :
    (∀ c ∈ (Nat.toDigits base n).map fun c => UInt8.ofNat c.toNat, isOk c = true) ∧
      ((Nat.toDigits base n).map fun c => UInt8.ofNat c.toNat).foldl
        (fun n c => n * base + value c) 0 = n := by
  induction n using Nat.strongRecOn with
  | ind n ih =>
    by_cases hsmall : n < base
    · obtain ⟨hok, hvalue⟩ := hdigit n hsmall
      rw [Nat.toDigits_of_lt_base hsmall, map_singleton]
      constructor
      · intro c hc
        rw [mem_singleton.mp hc]
        exact hok
      · rw [foldl_cons, foldl_nil, Nat.zero_mul, Nat.zero_add, hvalue]
    · have hle := Nat.not_lt.mp hsmall
      obtain ⟨hdigits, hvalues⟩ := ih (n / base) (Nat.div_lt_self (by omega) hbase)
      obtain ⟨hok, hvalue⟩ := hdigit (n % base) (Nat.mod_lt _ (by omega))
      rw [Nat.toDigits_of_base_le hbase hle, map_append, map_singleton]
      constructor
      · intro c hc
        obtain hfirst | hlast := mem_append.mp hc
        · exact hdigits c hfirst
        · rw [mem_singleton.mp hlast]
          exact hok
      · rw [foldl_append, hvalues, foldl_cons, foldl_nil, hvalue]
        exact Nat.div_add_mod' n base

theorem decimal_digits (n : Nat) :
    (∀ c ∈ decimal n, isDigit c = true) ∧ digitsValue (decimal n) = n :=
  toDigits_spell (by decide) (by decide) n

theorem hexadecimal_digits (n : Nat) :
    (∀ c ∈ hexadecimal n, isHexDigit c = true) ∧ hexDigitsValue (hexadecimal n) = n :=
  toDigits_spell (by decide) (by decide) n

theorem decimal_ne_nil (n : Nat) : decimal n ≠ [] := by
  rw [decimal]
  intro h
  exact Nat.toDigits_ne_nil (map_eq_nil_iff.mp h)

theorem hexadecimal_ne_nil (n : Nat) : hexadecimal n ≠ [] := by
  rw [hexadecimal]
  intro h
  exact Nat.toDigits_ne_nil (map_eq_nil_iff.mp h)

/-- `from_chars` reads back what `to_chars` writes. -/
theorem fromChars_decimal {n : Nat} (h : n < 2 ^ 64) :
    fromChars (decimal n) = some (n, (decimal n).length) := by
  obtain ⟨hdigits, hvalue⟩ := decimal_digits n
  have hall : (decimal n).takeWhile isDigit = decimal n := takeWhile_eq_self_iff.mpr hdigits
  rw [fromChars, hall, hvalue, if_neg]
  rintro (hnil | hbig)
  · exact decimal_ne_nil n hnil
  · omega

/-- `from_chars` reads a text of digits as a whole. -/
theorem fromCharsHex_digits {digits : Bytes} (hne : digits ≠ [])
    (hdigits : ∀ b ∈ digits, isHexDigit b = true) (h : hexDigitsValue digits < 2 ^ 64) :
    fromCharsHex digits = some (hexDigitsValue digits, digits.length) := by
  have hall : digits.takeWhile isHexDigit = digits := takeWhile_eq_self_iff.mpr hdigits
  rw [fromCharsHex, hall, if_neg]
  rintro (hnil | hbig)
  · exact hne hnil
  · omega

theorem fromCharsHex_hexadecimal {n : Nat} (h : n < 2 ^ 64) :
    fromCharsHex (hexadecimal n) = some (n, (hexadecimal n).length) := by
  obtain ⟨hdigits, hvalue⟩ := hexadecimal_digits n
  rw [fromCharsHex_digits (hexadecimal_ne_nil n) hdigits (by rw [hvalue]; exact h), hvalue]

/-- What the strict reading accepts: a text of digits. -/
theorem parseContentLength_eq_some {v : Bytes} {n : Nat} :
    parseContentLength v = some n ↔
      v ≠ [] ∧ (∀ b ∈ v, isDigit b = true) ∧ digitsValue v = n ∧ n < 2 ^ 64 := by
  rw [parseContentLength, fromChars]
  constructor
  · intro h
    split at h
    · rename_i m digits hread
      split at hread
      · cases hread
      · rename_i hok
        obtain ⟨hvalue, hcount⟩ := Prod.mk.inj (Option.some.inj hread)
        split at h
        · rename_i hwhole
          have hall : v.takeWhile isDigit = v :=
            (List.takeWhile_prefix isDigit).eq_of_length (hcount.trans hwhole)
          rw [hall] at hok hvalue
          obtain ⟨hne, hsmall⟩ := not_or.mp hok
          have hn := hvalue.trans (Option.some.inj h)
          exact ⟨hne, takeWhile_eq_self_iff.mp hall, hn, hn ▸ Nat.not_le.mp hsmall⟩
        · cases h
    · cases h
  · rintro ⟨hne, hdigits, rfl, hsmall⟩
    have hall : v.takeWhile isDigit = v := takeWhile_eq_self_iff.mpr hdigits
    have hok : ¬ (v = [] ∨ digitsValue v ≥ 2 ^ 64) := fun hbad =>
      hbad.elim hne (Nat.not_le.mpr hsmall)
    rw [hall, if_neg hok]
    exact if_pos rfl

end HttpText
