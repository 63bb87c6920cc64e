import Mathlib.Logic.Relation
import WaveX.QpackLines

/-! # What the Required Insert Count promises

    A field section names the number of insertions it needs, its Required Insert Count, so
    that it means the same however many more have arrived.  The decoder checks that the
    count has been reached and nothing else: a base above the count, or an index counted
    on from the base, may refer to an entry at or beyond it, and such a line decodes as
    soon as the entry happens to be there.

    Sections whose lines all refer below the count do keep the promise; those that decode
    on the longer table keep it only then. -/

namespace QpackInsertCount

open QuicVarInt Qpack Qpack.DynamicTable QpackTable QpackLines
open Hpack (Field decodeInteger)

/-! ## Absolute indices -/

/-- The absolute index a dynamic reference stands for, if it stands for one. -/
def Ref.absolute (base : Nat) : Ref → Option Nat
  | .static _ => none
  | .relative idx => if base = 0 ∨ idx ≥ base then none else some (base - 1 - idx)
  | .postBase idx => if idx > 2 ^ 64 - 1 - base then none else some (base + idx)

/-- The absolute index a line refers to. -/
def Line.absolute (base : Nat) : Line → Option Nat
  | .indexed ref => Ref.absolute base ref
  | .named ref _ => Ref.absolute base ref
  | .literal _ _ => none

/-- The line at a cursor and the cursor after it, read off the bytes. -/
def LineAt (block : Bytes) (c : Nat) (line : Line) (c' : Nat) : Prop :=
  ∃ b tail, block.drop c = b :: tail ∧ scanLine block c b.toNat = some (line, c')

/-- Cursors at which lines start, as the bytes have them. -/
def Scanned (block : Bytes) : Nat → Nat → Prop :=
  Relation.ReflTransGen fun c c' => ∃ line, LineAt block c line c'

/-- Cursors that the decoder reaches on a table: every line before decodes on it. -/
def Reached (t : DynamicTable) (block : Bytes) (base : Nat) : Nat → Nat → Prop :=
  Relation.ReflTransGen fun c c' =>
    ∃ line f, LineAt block c line c' ∧ line.field t base = some f

/-! ## The promise and its condition -/

/-- The Required Insert Count of a section on a table. -/
def sectionCount (block : Bytes) (t : DynamicTable) : Option Nat :=
  (decodeInteger block 0 8).bind fun p => requiredInsertCount t p.1

/-- A table and an extension of it by further insertions: both have the insertions that the
    section needs and read its count alike, and no entry below the count is evicted. -/
structure Extension (block : Bytes) (t t' : DynamicTable) (ric : Nat) : Prop where
  inserts : ∃ fields : List Field, t' = fields.foldl DynamicTable.insert t
  count : sectionCount block t = some ric
  enough : ric ≤ t.totalInserts
  count' : sectionCount block t' = some ric
  keeps : ∀ a f, a < ric → t.getByAbsoluteIndex a = some f → t'.getByAbsoluteIndex a = some f

/-- No line that the decoder reaches refers to an entry at or beyond the count that the
    table holds. -/
def NoneBeyond (block : Bytes) (t : DynamicTable) (ric : Nat) : Prop :=
  ∀ base start, decodePrefix block t = .lines base start →
    ∀ c line c' a, Reached t block base start c → LineAt block c line c' →
      Line.absolute base line = some a → ric ≤ a → t.getByAbsoluteIndex a = none

/-- The section decodes alike on both tables, and nothing at or beyond the count
    resolves. -/
structure OrderIndependent (block : Bytes) (t t' : DynamicTable) (ric : Nat) : Prop where
  same : ∀ maxFieldSectionSize fuel, decodeHeaderBlock maxFieldSectionSize block t fuel =
    decodeHeaderBlock maxFieldSectionSize block t' fuel
  none : NoneBeyond block t ric
  none' : NoneBeyond block t' ric

/-- Every line of the section refers below the count. -/
def RefersBelow (block : Bytes) (t : DynamicTable) (ric : Nat) : Prop :=
  ∀ base start, decodePrefix block t = .lines base start →
    ∀ c line c' a, Scanned block start c → LineAt block c line c' →
      Line.absolute base line = some a → a < ric

/-! ## Lookups -/

variable {block : Bytes} {t t' : DynamicTable} {ric base : Nat}

/-- A dynamic reference is looked up by its absolute index. -/
theorem lookup_dynamic (t : DynamicTable) (base : Nat) (ref : Ref) :
    (∃ idx, ref = .static idx) ∨
      ref.lookup t base = (Ref.absolute base ref).bind t.getByAbsoluteIndex := by
  cases ref with
  | static idx => exact .inl ⟨idx, rfl⟩
  | relative idx =>
    refine .inr ?_
    rw [Ref.lookup, Ref.absolute, getRelative]
    split <;> rfl
  | postBase idx =>
    refine .inr ?_
    rw [Ref.lookup, Ref.absolute, getPostBase]
    split <;> rfl

theorem lookup_congr {ref : Ref}
    (h : ∀ a, Ref.absolute base ref = some a → t.getByAbsoluteIndex a = t'.getByAbsoluteIndex a) :
    ref.lookup t base = ref.lookup t' base := by
  obtain ⟨idx, rfl⟩ | hlookup := lookup_dynamic t base ref
  · rfl
  obtain ⟨idx, rfl⟩ | hlookup' := lookup_dynamic t' base ref
  · rfl
  rw [hlookup, hlookup']
  cases habs : Ref.absolute base ref with
  | none => rfl
  | some a => exact h a habs

theorem field_congr {line : Line}
    (h : ∀ a, Line.absolute base line = some a →
      t.getByAbsoluteIndex a = t'.getByAbsoluteIndex a) :
    line.field t base = line.field t' base := by
  cases line with
  | indexed ref => exact lookup_congr h
  | named ref value => rw [Line.field, Line.field, lookup_congr h]
  | literal name value => rfl

/-- A line that decodes and refers to an entry found the entry. -/
theorem field_resolved {line : Line} {f : Field} {a : Nat} (hfield : line.field t base = some f)
    (habs : Line.absolute base line = some a) : t.getByAbsoluteIndex a ≠ none := by
  have hlookup : ∀ (ref : Ref) (g : Field), ref.lookup t base = some g →
      Ref.absolute base ref = some a → t.getByAbsoluteIndex a ≠ none := by
    intro ref g hg href
    obtain ⟨idx, rfl⟩ | hdynamic := lookup_dynamic t base ref
    · cases href
    · rw [hdynamic, href, Option.bind_some] at hg
      rw [hg]
      exact Option.some_ne_none g
  cases line with
  | indexed ref => exact hlookup ref f hfield habs
  | named ref value =>
    obtain ⟨g, hg, -⟩ := Option.map_eq_some_iff.mp hfield
    exact hlookup ref g hg habs
  | literal name value => cases habs

/-! ## Insertions -/

/-- Insertions add no entry below the insert count. -/
theorem inserts_get {a : Nat} {f : Field} (fields : List Field) (hvalid : Valid t)
    (ha : a < t.totalInserts)
    (hget : (fields.foldl DynamicTable.insert t).getByAbsoluteIndex a = some f) :
    t.getByAbsoluteIndex a = some f := by
  induction fields generalizing t with
  | nil => exact hget
  | cons g fields ih =>
    have htotal : (t.insert g).totalInserts = t.totalInserts + 1 := by
      rw [DynamicTable.insert]
      split <;> rfl
    have hafter := ih (hvalid.insert g) (by omega) hget
    have hmem := (insert_entries t g).subset ((hvalid.insert g).get_iff.mp hafter)
    obtain hold | hnew := List.mem_append.mp hmem
    · exact hvalid.get_iff.mpr hold
    · have hindex := congrArg Entry.absoluteIndex (List.mem_singleton.mp hnew)
      dsimp only at hindex
      omega

theorem inserts_total (fields : List Field) (t : DynamicTable) :
    t.totalInserts ≤ (fields.foldl DynamicTable.insert t).totalInserts := by
  induction fields generalizing t with
  | nil => exact Nat.le_refl _
  | cons g fields ih =>
    have hstep : t.totalInserts ≤ (t.insert g).totalInserts := by
      rw [DynamicTable.insert]
      split <;> exact Nat.le_succ _
    exact Nat.le_trans hstep (ih (t.insert g))

/-- Below the count the two tables hold the same. -/
theorem Extension.get_eq (h : Extension block t t' ric) (hvalid : Valid t) {a : Nat}
    (ha : a < ric) : t.getByAbsoluteIndex a = t'.getByAbsoluteIndex a := by
  obtain ⟨fields, hfields⟩ := h.inserts
  cases hget : t.getByAbsoluteIndex a with
  | some f => exact (h.keeps a f ha hget).symm
  | none =>
    cases hget' : t'.getByAbsoluteIndex a with
    | none => rfl
    | some f =>
      rw [hfields] at hget'
      have hold := inserts_get fields hvalid (Nat.lt_of_lt_of_le ha h.enough) hget'
      rw [hget] at hold
      cases hold

/-! ## The prefix -/

/-- The prefix reads alike on tables that read the count alike and do not block. -/
theorem Extension.decodePrefix_eq (h : Extension block t t' ric) :
    decodePrefix block t = decodePrefix block t' := by
  have henough' : ric ≤ t'.totalInserts := by
    obtain ⟨fields, rfl⟩ := h.inserts
    exact Nat.le_trans h.enough (inserts_total fields t)
  have hready : t.isBlocked ric = false := decide_eq_false (Nat.not_lt.mpr h.enough)
  have hready' : t'.isBlocked ric = false := decide_eq_false (Nat.not_lt.mpr henough')
  obtain ⟨p, hinteger, hcount⟩ := Option.bind_eq_some_iff.mp h.count
  obtain ⟨p', hinteger', hcount'⟩ := Option.bind_eq_some_iff.mp h.count'
  rw [hinteger] at hinteger'
  obtain rfl := Option.some.inj hinteger'
  rw [decodePrefix, decodePrefix, hinteger]
  dsimp only
  rw [hcount, hcount']
  cases block.drop p.2 with
  | nil => rfl
  | cons first tail =>
    dsimp only
    cases decodeInteger block p.2 7 with
    | none => rfl
    | some q =>
      dsimp only
      rw [hready, hready']

/-! ## The condition is enough -/

theorem Reached.scanned {start c : Nat} (h : Reached t block base start c) :
    Scanned block start c := by
  induction h with
  | refl => exact .refl
  | tail _ hstep ih =>
    obtain ⟨line, f, hline, -⟩ := hstep
    exact ih.tail ⟨line, hline⟩

/-- The loops run alike from every cursor where a line starts. -/
theorem decodeLines_eq {start : Nat} (cap : Nat)
    (hsame : ∀ c line c', Scanned block start c → LineAt block c line c' →
      line.field t base = line.field t' base) (fuel : Nat) {c : Nat} (hc : Scanned block start c)
    (headers : List Field) :
    decodeLines cap block t base fuel c headers = decodeLines cap block t' base fuel c headers := by
  induction fuel generalizing c headers with
  | zero => rfl
  | succ fuel ih =>
    rw [decodeLines, decodeLines]
    cases hdrop : block.drop c with
    | nil => rfl
    | cons b tail =>
      dsimp only
      rw [decodeLine_eq, decodeLine_eq]
      cases hscan : scanLine block c b.toNat with
      | none => rfl
      | some p =>
        have hline : LineAt block c p.1 p.2 := ⟨b, tail, hdrop, hscan⟩
        rw [Option.bind_some, Option.bind_some, resolve, resolve, hsame c p.1 p.2 hc hline]
        cases p.1.field t' base with
        | none => rfl
        | some f =>
          dsimp only [Option.map_some]
          cases addHeader cap headers f with
          | none => rfl
          | some headers' => exact ih (hc.tail ⟨p.1, hline⟩) headers'

theorem RefersBelow.noneBeyond (h : RefersBelow block t ric) : NoneBeyond block t ric := by
  intro base start hpre c line c' a hreached hline habs hbeyond
  exact absurd (h base start hpre c line c' a hreached.scanned hline habs)
    (Nat.not_lt.mpr hbeyond)

theorem Extension.refersBelow_iff (hext : Extension block t t' ric) :
    RefersBelow block t ric ↔ RefersBelow block t' ric := by
  rw [RefersBelow, RefersBelow, hext.decodePrefix_eq]

theorem RefersBelow.orderIndependent (h : RefersBelow block t ric) (hvalid : Valid t)
    (hext : Extension block t t' ric) : OrderIndependent block t t' ric := by
  have hpre := hext.decodePrefix_eq
  constructor
  · intro cap fuel
    rw [decodeHeaderBlock, decodeHeaderBlock, ← hpre]
    cases hstart : decodePrefix block t with
    | malformed => rfl
    | blocked => rfl
    | lines base start =>
      refine decodeLines_eq cap (fun c line c' hc hline => field_congr fun a ha => ?_) fuel .refl []
      exact hext.get_eq hvalid (h base start hstart c line c' a hc hline ha)
  · exact h.noneBeyond
  · exact (hext.refersBelow_iff.mp h).noneBeyond

/-! ## And needed where a section is accepted -/

/-- The loop succeeds only if every line decodes. -/
theorem decodeLines_ok {cap fuel c : Nat} {headers : List Field} {s : Section}
    (hrun : decodeLines cap block t base fuel c headers = some s) (hok : s.ok = true)
    {line : Line} {c' : Nat} (hline : LineAt block c line c') :
    ∃ f fuel' headers', line.field t base = some f ∧
      decodeLines cap block t base fuel' c' headers' = some s := by
  obtain ⟨b, tail, hdrop, hscan⟩ := hline
  cases fuel with
  | zero => cases hrun
  | succ fuel =>
    rw [decodeLines, hdrop] at hrun
    dsimp only at hrun
    rw [decodeLine_eq, hscan, Option.bind_some, resolve] at hrun
    cases hfield : line.field t base with
    | none =>
      rw [hfield, Option.map_none] at hrun
      obtain rfl := Option.some.inj hrun
      cases hok
    | some f =>
      rw [hfield, Option.map_some] at hrun
      dsimp only at hrun
      cases hadd : addHeader cap headers f with
      | none =>
        rw [hadd] at hrun
        obtain rfl := Option.some.inj hrun
        cases hok
      | some headers' =>
        rw [hadd] at hrun
        exact ⟨f, fuel, headers', rfl, hrun⟩

/-- On a table that accepts the section every line is reached. -/
theorem reached_of_accepted {cap fuel start c : Nat} {headers : List Field} {s : Section}
    (hrun : decodeLines cap block t base fuel start headers = some s) (hok : s.ok = true)
    (hc : Scanned block start c) :
    Reached t block base start c ∧
      ∃ fuel' headers', decodeLines cap block t base fuel' c headers' = some s := by
  induction hc with
  | refl => exact ⟨.refl, fuel, headers, hrun⟩
  | tail _ hstep ih =>
    obtain ⟨hreached, fuel', headers', hrest⟩ := ih
    obtain ⟨line, hline⟩ := hstep
    obtain ⟨f, fuel'', headers'', hfield, hnext⟩ := decodeLines_ok hrest hok hline
    exact ⟨hreached.tail ⟨line, f, hline, hfield⟩, fuel'', headers'', hnext⟩

theorem NoneBeyond.refersBelow (h : NoneBeyond block t ric) {cap fuel : Nat} {s : Section}
    (hrun : decodeHeaderBlock cap block t fuel = some s) (hok : s.ok = true) :
    RefersBelow block t ric := by
  intro base start hpre c line c' a hc hline habs
  rw [decodeHeaderBlock, hpre] at hrun
  obtain ⟨hreached, fuel', headers', hrest⟩ := reached_of_accepted hrun hok hc
  obtain ⟨f, -, -, hfield, -⟩ := decodeLines_ok hrest hok hline
  by_contra hbeyond
  exact field_resolved hfield habs
    (h base start hpre c line c' a hreached hline habs (Nat.not_lt.mp hbeyond))

/-- **Sections that mean the same on every longer table.**  When every line refers below the
    Required Insert Count, the section decodes alike on a table and on its extensions and
    nothing at or beyond the count resolves.  For a section that the extension accepts
    this is the exact condition. -/
theorem section_order_independent {block : Bytes} {t t' : DynamicTable} {ric : Nat}
    (ht : Reachable (fun _ => True) t) (hext : Extension block t t' ric) :
    (RefersBelow block t ric → OrderIndependent block t t' ric) ∧
      ((∃ cap fuel s, decodeHeaderBlock cap block t' fuel = some s ∧ s.ok = true) →
        (OrderIndependent block t t' ric ↔ RefersBelow block t ric)) := by
  refine ⟨fun h => h.orderIndependent ht.valid hext, ?_⟩
  rintro ⟨cap, fuel, s, hrun, hok⟩
  constructor
  · intro h
    exact hext.refersBelow_iff.mpr (h.none'.refersBelow hrun hok)
  · intro h
    exact h.orderIndependent ht.valid hext

/-! ## Two sections with a count of one -/

/-- A table after one insertion, and after one more. -/
def oneEntry : DynamicTable := DynamicTable.insert {} (text "x-a", text "1")

def twoEntries : DynamicTable := oneEntry.insert (text "x-b", text "2")

theorem oneEntry_reachable : Reachable (fun _ => True) oneEntry :=
  Reachable.insert (@Reachable.new _ 4096 4096 (by decide) (by decide)) trivial

theorem oneEntry_extension {block : Bytes}
    (hblock : (decodeInteger block 0 8).map Prod.fst = some 2) :
    Extension block oneEntry twoEntries 1 := by
  obtain ⟨p, hinteger, hcount⟩ := Option.map_eq_some_iff.mp hblock
  refine ⟨⟨[(text "x-b", text "2")], rfl⟩, ?_, by decide, ?_, ?_⟩
  · rw [sectionCount, hinteger, Option.bind_some, hcount]
    decide
  · rw [sectionCount, hinteger, Option.bind_some, hcount]
    decide
  · intro a f ha hget
    obtain rfl : a = 0 := by omega
    rw [← hget]
    decide

/-- The section refers to the first entry, with the base at the count. -/
theorem section_order_independent_below :
    OrderIndependent [0x02, 0x00, 0x80] oneEntry twoEntries 1 := by
  refine (section_order_independent oneEntry_reachable
    (oneEntry_extension (by decide))).1 ?_
  intro base start hpre c line c' a hc hline habs
  have hstart : decodePrefix [0x02, 0x00, 0x80] oneEntry = .lines 1 2 := by decide
  rw [hstart] at hpre
  obtain ⟨rfl, rfl⟩ := SectionStart.lines.inj hpre
  -- the only line stands at the third byte
  have hfirst : ∀ line c', LineAt [0x02, 0x00, 0x80] 2 line c' →
      line = .indexed (.relative 0) ∧ c' = 3 := by
    rintro line c' ⟨b, tail, hdrop, hscan⟩
    obtain ⟨rfl, -⟩ := List.cons_eq_cons.mp hdrop
    have honly : scanLine [0x02, 0x00, 0x80] 2 0x80 = some (.indexed (.relative 0), 3) := by
      decide
    obtain ⟨rfl, rfl⟩ := Prod.mk.inj (Option.some.inj (honly.symm.trans hscan))
    exact ⟨rfl, rfl⟩
  have hend : ∀ line c', ¬ LineAt [0x02, 0x00, 0x80] 3 line c' := by
    rintro line c' ⟨b, tail, hdrop, -⟩
    cases hdrop
  have hcursors : ∀ c, Scanned [0x02, 0x00, 0x80] 2 c → c = 2 ∨ c = 3 := by
    intro c hc
    induction hc with
    | refl => exact .inl rfl
    | tail _ hstep ih =>
      obtain ⟨line, hline⟩ := hstep
      obtain rfl | rfl := ih
      · exact .inr (hfirst line _ hline).2
      · exact absurd hline (hend line _)
  obtain rfl | rfl := hcursors c hc
  · obtain ⟨rfl, -⟩ := hfirst line c' hline
    obtain rfl : 0 = a := Option.some.inj habs
    decide
  · exact absurd hline (hend line c')

/-- With the base one above the count, the section refers to the second entry: it is
    refused while the first is the newest and accepted once the second has arrived. -/
theorem reference_beyond_count :
    Extension [0x02, 0x01, 0x80] oneEntry twoEntries 1 ∧
      decodeHeaderBlock 0 [0x02, 0x01, 0x80] oneEntry 2 = some { ok := false } ∧
      decodeHeaderBlock 0 [0x02, 0x01, 0x80] twoEntries 2 =
        some { ok := true, headers := [(text "x-b", text "2")] } ∧
      ¬ OrderIndependent [0x02, 0x01, 0x80] oneEntry twoEntries 1 := by
  have hone : decodeHeaderBlock 0 [0x02, 0x01, 0x80] oneEntry 2 = some { ok := false } := by
    decide
  have htwo : decodeHeaderBlock 0 [0x02, 0x01, 0x80] twoEntries 2 =
      some { ok := true, headers := [(text "x-b", text "2")] } := by decide
  refine ⟨oneEntry_extension (by decide), hone, htwo, ?_⟩
  intro h
  have hsame := h.same 0 2
  rw [hone, htwo] at hsame
  cases hsame

end QpackInsertCount
