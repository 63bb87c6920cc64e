import WaveX.MultipartParts
import WaveX.MultipartLines
import WaveX.MultipartRoundTrip

/-! # Truncated bodies

    A body that is complete ends with the closing delimiter, and each part before it has its
    own headers and a delimiter line at its end.  The part loop stops at the closing
    delimiter, but also where the body is at its end, where no blank line follows and where
    no delimiter does; and a part that is cut in its headers takes the blank line of the next
    one.  None of these makes the form invalid. -/

namespace MultipartTruncation

open QuicVarInt HttpText Multipart MultipartRounds MultipartParts List

/-! ## The contract -/

/-- A part is complete: its headers end at its own blank line, before the next delimiter
    line, and such a line ends its content. -/
structure Complete (delimiter body : Bytes) (r : Round) : Prop where
  headers : MultipartLines.OwnHeaders delimiter body r.pos r.headerEnd
  line : MultipartLines.Line delimiter body r.nextBoundary

/-- Complete parts lead from the first delimiter line to the closing one. -/
def ClosingReached (body contentTypeHeader : Bytes) : Prop :=
  ∃ start rs stop, findFrom (delimiterOf contentTypeHeader) body 0 = some start ∧
    MultipartLines.Line (delimiterOf contentTypeHeader) body start ∧
    Chain body (delimiterOf contentTypeHeader)
      (start + (delimiterOf contentTypeHeader).length) rs stop ∧
    (∀ r ∈ rs, Complete (delimiterOf contentTypeHeader) body r) ∧
    Occurs (text "--") body stop

/-- The contract: a form that is valid is complete. -/
def Reported (body contentTypeHeader : Bytes) (limits : MultipartLimits) : Prop :=
  (parse body contentTypeHeader limits).valid = true → ClosingReached body contentTypeHeader

/-- The loop leaves without a word: behind a delimiter that does not close the body, the body
    is at its end, or has no blank line with a delimiter behind it. -/
def Silent (body delimiter : Bytes) (pos : Nat) : Prop :=
  ¬ Occurs (text "--") body pos ∧ (body.length ≤ pos ∨ searches body delimiter pos = none)

/-- Parts are missing or cut between the first delimiter and where the loop stops. -/
def Cut (body delimiter : Bytes) (start : Nat) (rs : List Round) (stop : Nat) : Prop :=
  ¬ MultipartLines.Line delimiter body start ∨ (∃ r ∈ rs, ¬ Complete delimiter body r) ∨
    Silent body delimiter stop

/-- The body is not refused at once, parts within the limits lead from the first delimiter to
    where the loop stops, and something is cut there. -/
structure Truncated (body contentTypeHeader : Bytes) (limits : MultipartLimits) : Prop where
  size : body.length ≤ limits.maxTotalSize
  boundary : extractBoundary contentTypeHeader ≠ []
  cut : ∃ start rs stop, findFrom (delimiterOf contentTypeHeader) body 0 = some start ∧
    Chain body (delimiterOf contentTypeHeader)
      (start + (delimiterOf contentTypeHeader).length) rs stop ∧
    Stops body (delimiterOf contentTypeHeader) stop ∧
    ¬ LimitHit limits [] (rs.map (Round.part body (delimiterOf contentTypeHeader))) ∧
    Cut body (delimiterOf contentTypeHeader) start rs stop

/-! ## Where the loop stops -/

section

variable {body delimiter : Bytes} {pos : Nat}

/-- At a closing delimiter the loop stops. -/
theorem closing_stops (h : Occurs (text "--") body pos) : Stops body delimiter pos := by
  refine .inl (Bool.eq_false_iff.mpr ?_)
  intro hgoes
  exact (goesOn_iff.mp hgoes).2 h

/-- The loop stops at a closing delimiter, or without a word. -/
theorem Stops.cases (h : Stops body delimiter pos) :
    Occurs (text "--") body pos ∨ Silent body delimiter pos := by
  by_cases hclosing : Occurs (text "--") body pos
  · exact .inl hclosing
  · refine .inr ⟨hclosing, ?_⟩
    rcases h with hgoes | hnone
    · rw [Bool.eq_false_iff, ne_eq, goesOn_iff, not_and_or] at hgoes
      exact .inl (Nat.not_lt.mp (hgoes.resolve_right (not_not.mpr hclosing)))
    · exact .inr hnone

end

theorem delimiterOf_ne_nil (contentTypeHeader : Bytes) : delimiterOf contentTypeHeader ≠ [] :=
  cons_ne_nil _ _

/-- The rounds of a body follow one another from its first delimiter. -/
theorem walkOf_chain (body contentTypeHeader : Bytes) (start : Nat) :
    Chain body (delimiterOf contentTypeHeader)
        (start + (delimiterOf contentTypeHeader).length)
        (walkOf body contentTypeHeader start).1 (walkOf body contentTypeHeader start).2 ∧
      Stops body (delimiterOf contentTypeHeader) (walkOf body contentTypeHeader start).2 :=
  ⟨walk_chain body _ body.length _, walk_stops (delimiterOf_ne_nil _) (Nat.le_add_left _ _)⟩

/-- Where the loop stops, the parts are complete up to the closing delimiter or something is
    cut. -/
theorem not_cut_iff {body delimiter : Bytes} {start stop : Nat} {rs : List Round}
    (h : Stops body delimiter stop) : ¬ Cut body delimiter start rs stop ↔
      MultipartLines.Line delimiter body start ∧ (∀ r ∈ rs, Complete delimiter body r) ∧
        Occurs (text "--") body stop := by
  rw [Cut, not_or, not_or, not_not]
  refine and_congr_right fun _ => and_congr ?_ ?_
  · simp only [not_exists, not_and, not_not]
  · constructor
    · intro hloud
      exact (Stops.cases h).resolve_right hloud
    · intro hclosing hsilent
      exact hsilent.1 hclosing

/-- A form is complete exactly if the body is not truncated within the limits. -/
theorem reported_iff (body contentTypeHeader : Bytes) (limits : MultipartLimits) :
    Reported body contentTypeHeader limits ↔ ¬ Truncated body contentTypeHeader limits := by
  constructor
  · intro h htruncated
    obtain ⟨hsize, hboundary, start, rs, stop, hstart, hchain, hstop, hlimit, hcut⟩ := htruncated
    obtain ⟨hwalk, hstops⟩ := walkOf_chain body contentTypeHeader start
    obtain ⟨hrs, -⟩ := hwalk.unique hchain hstops hstop
    have hvalid : (parse body contentTypeHeader limits).valid = true := by
      rw [parse_eq hsize hboundary hstart,
        joinAll_valid limits (counted_empty _) rfl, hrs]
      exact hlimit
    obtain ⟨start', rs', stop', hstart', hline, hchain', hparts, hclosing⟩ := h hvalid
    obtain rfl := Option.some.inj (hstart.symm.trans hstart')
    obtain ⟨rfl, rfl⟩ := hchain.unique hchain' hstop (closing_stops hclosing)
    exact (not_cut_iff hstop).mpr ⟨hline, hparts, hclosing⟩ hcut
  · intro h hvalid
    obtain ⟨hsize, hboundary, start, hstart⟩ := parse_valid_start hvalid
    obtain ⟨hwalk, hstops⟩ := walkOf_chain body contentTypeHeader start
    rw [parse_eq hsize hboundary hstart, joinAll_valid limits (counted_empty _) rfl] at hvalid
    have hwhole : ¬ Cut body (delimiterOf contentTypeHeader) start
        (walkOf body contentTypeHeader start).1 (walkOf body contentTypeHeader start).2 :=
      fun hcut => h ⟨hsize, hboundary, start, _, _, hstart, hwalk, hstops, hvalid, hcut⟩
    obtain ⟨hline, hparts, hclosing⟩ := (not_cut_iff hstops).mp hwhole
    exact ⟨start, _, _, hstart, hline, hwalk, hparts, hclosing⟩

/-! ## Cut bodies -/

section

open MultipartRoundTrip

variable {limits : MultipartLimits} {boundary : Bytes} {e : Entry}

/-- What stands in a front of a text stands in the text. -/
theorem Occurs.mono {pattern s t : Bytes} {i : Nat} (h : Occurs pattern t i) (ht : t <+: s) :
    Occurs pattern s i := by
  obtain ⟨rest, rfl⟩ := ht
  obtain ⟨after, hafter⟩ := h
  by_cases hi : i ≤ t.length
  · rw [Occurs, drop_append_of_le_length hi]
    exact ⟨after ++ rest, by rw [← append_assoc, hafter]⟩
  · rw [drop_of_length_le (by omega)] at hafter
    rw [(append_eq_nil_iff.mp hafter).1]
    exact nil_prefix

/-- A text that is found at the end of another one is not found in a front of it. -/
theorem findText_cut {pattern s t : Bytes} {n : Nat} (h : findText pattern s = some n)
    (hend : n + pattern.length = s.length) (ht : t <+: s) (hcut : t.length < s.length)
    (hne : pattern ≠ []) : findText pattern t = none := by
  cases hfound : findText pattern t with
  | none => rfl
  | some m =>
    obtain ⟨hat, -, -⟩ := findText_some hfound
    obtain ⟨-, -, hbefore⟩ := findText_some h
    have hfits : _ ≤ t.length := Occurs.inside hat hne
    exact absurd (Occurs.mono hat ht) (hbefore m (by omega))

/-- No two line feeds follow each other. -/
def Unblank (s : Bytes) : Prop := s.IsChain fun a b => a = lf → b ≠ lf

theorem Unblank.not_occurs {s : Bytes} (h : Unblank s) (i : Nat) : ¬ Occurs [lf, lf] s i := by
  intro hat
  obtain ⟨after, hafter⟩ := hat
  have hsuffix := h.drop i
  rw [← hafter] at hsuffix
  exact (isChain_cons_cons.mp hsuffix).1 rfl rfl

theorem unblank_line {s : Bytes} (h : lf ∉ s) : Unblank s := by
  refine (pairwise_of_forall_mem_list ?_).isChain
  intro a ha b _ heq
  exact absurd (heq ▸ ha) h

/-- A line without a line feed in it, and its line break. -/
theorem Unblank.line {line s : Bytes} (hs : Unblank s) (hline : lf ∉ line)
    (hhead : s.head? ≠ some lf) : Unblank (line ++ (crlf ++ s)) := by
  refine isChain_append.mpr ⟨unblank_line hline, ?_, ?_⟩
  · refine isChain_cons_cons.mpr ⟨fun h => absurd h (by decide), ?_⟩
    refine isChain_cons.mpr ⟨?_, hs⟩
    intro y hy _ heq
    rw [heq] at hy
    exact hhead hy
  · intro x hx y _ heq
    exact absurd (heq ▸ mem_of_getLast? hx) hline

theorem line_noLf {e : Entry} (he : e.WellFormed boundary limits) :
    Unblank (e.headers ++ (crlf ++ [cr])) := by
  have hend : Unblank [cr] := unblank_line (by decide)
  cases e with
  | field name value =>
    exact hend.line (dispositionLine_ok (fieldDisposition_ok he.1)).2.1 (by decide)
  | file name filename content contentType =>
    obtain ⟨hname, hfilename, hct, -⟩ := he
    have hsecond := hend.line (contentTypeLine_ok hct).1 (by decide)
    rw [Entry.headers, append_assoc, append_assoc]
    refine hsecond.line (dispositionLine_ok (fileDisposition_ok hname hfilename)).2.1 ?_
    show some 0x43 ≠ some lf
    decide

/-- The headers of an entry that are cut have no blank line. -/
theorem headers_cut (he : e.WellFormed boundary limits) {u : Bytes}
    (hu : u <+: e.headers ++ (crlf ++ crlf))
    (hcut : u.length < (e.headers ++ (crlf ++ crlf)).length) :
    findText (crlf ++ crlf) u = none ∧ findText [lf, lf] u = none := by
  have hfull := findText_headers he []
  rw [append_nil] at hfull
  refine ⟨?_, ?_⟩
  · exact findText_cut hfull length_append.symm hu hcut (cons_ne_nil _ _)
  · cases hfound : findText [lf, lf] u with
    | none => rfl
    | some m =>
      obtain ⟨hat, -, -⟩ := findText_some hfound
      -- without its last line feed the blank line is none
      have hfront : u <+: e.headers ++ (crlf ++ [cr]) := by
        have hwhole : e.headers ++ (crlf ++ crlf) = e.headers ++ (crlf ++ [cr]) ++ [lf] := by
          rw [append_assoc]
          rfl
        rw [hwhole] at hu hcut
        rw [length_append] at hcut
        exact prefix_of_prefix_length_le hu (prefix_append _ _) (by
          rw [length_singleton] at hcut
          omega)
      exact absurd (Occurs.mono hat hfront) ((line_noLf he).not_occurs m)

theorem findFrom_behind {pattern before s : Bytes} (h : findText pattern s = none) :
    findFrom pattern (before ++ s) before.length = none := by
  rw [findFrom, drop_left, h]
  rfl

/-- A front that reaches behind the first of two texts. -/
theorem prefix_append_split {u a b : Bytes} (h : u <+: a ++ b) (hlen : a.length ≤ u.length) :
    ∃ v, u = a ++ v ∧ v <+: b ∧ (u.length < (a ++ b).length → v.length < b.length) := by
  obtain ⟨v, rfl⟩ := prefix_of_prefix_length_le (prefix_append a b) h hlen
  refine ⟨v, rfl, (prefix_append_right_inj a).mp h, ?_⟩
  rw [length_append, length_append]
  exact Nat.lt_of_add_lt_add_left

/-- Behind the line break of a delimiter: no blank line, or no delimiter. -/
theorem searches_cut (hb : Boundary boundary) (he : e.WellFormed boundary limits)
    (front : Bytes) {u : Bytes}
    (hu : u <+: e.headers ++ (crlf ++ crlf) ++ (e.content ++ (crlf ++ delimiter boundary)))
    (hcut : u.length <
      (e.headers ++ (crlf ++ crlf) ++ (e.content ++ (crlf ++ delimiter boundary))).length) :
    headerEnd (front ++ u) front.length = none ∨
      ∃ j s, headerEnd (front ++ u) front.length = some (j, s) ∧
        findFrom (delimiter boundary) (front ++ u) s = none := by
  have hcontent : ¬ delimiter boundary <:+: e.content := by
    cases e with
    | field name value => exact he.2
    | file name filename content contentType => exact he.2.2.2.1
  by_cases hlen : (e.headers ++ (crlf ++ crlf)).length ≤ u.length
  · obtain ⟨v, rfl, hv, hshort⟩ := prefix_append_split hu hlen
    have hnone : findText (delimiter boundary) v = none := by
      have hfull := findText_delimiter hb hcontent []
      rw [append_nil] at hfull
      refine findText_cut hfull ?_ hv (hshort hcut) (cons_ne_nil _ _)
      rw [length_append, length_append, ← Nat.add_assoc]
      rfl
    have hfound : findFrom (crlf ++ crlf) (front ++ (e.headers ++ (crlf ++ crlf) ++ v))
        front.length = some (front.length + e.headers.length) := by
      rw [append_assoc e.headers]
      exact findFrom_append (findText_headers he v)
    refine .inr ⟨_, _, by rw [headerEnd, hfound], ?_⟩
    have hstart : front.length + e.headers.length + 4 =
        (front ++ (e.headers ++ (crlf ++ crlf))).length := by
      rw [length_append, length_append, ← Nat.add_assoc]
      rfl
    rw [hstart, ← append_assoc]
    exact findFrom_behind hnone
  · have hfront := prefix_of_prefix_length_le hu
      (prefix_append (e.headers ++ (crlf ++ crlf)) _) (Nat.le_of_not_le hlen)
    obtain ⟨hcrlf, hlf⟩ := headers_cut he hfront (Nat.lt_of_not_le hlen)
    refine .inl ?_
    rw [headerEnd, findFrom_behind hcrlf, findFrom_behind hlf]
    rfl

/-- One byte behind a delimiter is no blank line. -/
theorem nextPart_short {body : Bytes} {pos : Nat} (delimiter : Bytes)
    (h : pos ≤ body.length ∧ body.length < pos + 2) : nextPart body delimiter pos = none := by
  obtain ⟨hle, -, hinside⟩ := skipLineBreak_le body pos
  rw [nextPart]
  cases hend : headerEnd body (skipLineBreak body pos) with
  | none => rfl
  | some found =>
    obtain ⟨hj, hs, -, hlen, -⟩ := headerEnd_some hend (hinside h.1)
    omega

/-- An entry that is cut, or whose delimiter is, makes no round. -/
theorem nextPart_cut (hb : Boundary boundary) (he : e.WellFormed boundary limits)
    (before : Bytes) {t : Bytes} (ht : t <+: partBytes e ++ delimiter boundary)
    (hcut : t.length < (partBytes e ++ delimiter boundary).length) :
    nextPart (before ++ t) (delimiter boundary) before.length = none := by
  have hwhole : partBytes e ++ delimiter boundary =
      crlf ++ (e.headers ++ (crlf ++ crlf) ++ (e.content ++ (crlf ++ delimiter boundary))) := by
    rw [partBytes]
    simp only [append_assoc]
  rw [hwhole] at ht hcut
  by_cases hlen : crlf.length ≤ t.length
  · obtain ⟨u, rfl, hu, hshort⟩ := prefix_append_split ht hlen
    have hskip : skipLineBreak (before ++ (crlf ++ u)) before.length = (before ++ crlf).length :=
      skipLineBreak_crlf before u
    have hcases := searches_cut hb he (before ++ crlf) hu (hshort hcut)
    rw [append_assoc before] at hcases
    rw [nextPart, hskip]
    rcases hcases with hnone | ⟨j, s, hsome, hnone⟩
    · rw [hnone]
    · rw [hsome]
      dsimp only
      rw [hnone]
  · refine nextPart_short _ ?_
    rw [length_append]
    have htwo : t.length < 2 := Nat.lt_of_not_le hlen
    omega

/-- Without another part the loop ends with what it has. -/
theorem partLoop_none {body delimiter : Bytes} {pos : Nat} (f : MultipartFormData)
    (h : nextPart body delimiter pos = none) (rounds : Nat) :
    partLoop limits body delimiter rounds pos f = f := by
  cases rounds with
  | zero => rfl
  | succ rounds =>
    rw [partLoop, goesOn_ite, h]
    exact ite_self f

theorem join_valid (limits : MultipartLimits) (f : MultipartFormData) (e : Entry) :
    (e.join limits f).valid = f.valid := by
  cases e with
  | field name value => rfl
  | file name filename content contentType => rfl

/-- The loop over a body that is cut before its closing delimiter: the form stays valid. -/
theorem partLoop_cut (hb : Boundary boundary) (entries : List Entry)
    (he : ∀ e ∈ entries, e.WellFormed boundary limits) (before : Bytes) {t : Bytes}
    (ht : t <+: afterDelimiter boundary entries)
    (hcut : t.length + 2 < (afterDelimiter boundary entries).length)
    (hsize : (before ++ t).length < 2 ^ 64) (f : MultipartFormData)
    (hroom : Room limits f entries) (rounds : Nat) :
    (partLoop limits (before ++ t) (delimiter boundary) rounds before.length f).valid = f.valid := by
  induction entries generalizing before t f rounds with
  | nil =>
    -- at most one dash is left
    refine congrArg MultipartFormData.valid (partLoop_none f (nextPart_short _ ?_) rounds)
    have hfour : (afterDelimiter boundary []).length = 4 := rfl
    rw [hfour] at hcut
    rw [length_append]
    omega
  | cons e entries ih =>
    have hentry := he e mem_cons_self
    have hwhole : afterDelimiter boundary (e :: entries) =
        partBytes e ++ delimiter boundary ++ afterDelimiter boundary entries := by
      rw [afterDelimiter, append_assoc]
    rw [hwhole] at ht hcut
    by_cases hlen : (partBytes e ++ delimiter boundary).length ≤ t.length
    · cases rounds with
      | zero => rfl
      | succ rounds =>
        obtain ⟨u, rfl, hu, -⟩ := prefix_append_split ht hlen
        have htotal : (partBytes e ++ delimiter boundary ++ afterDelimiter boundary entries).length =
            _ := length_append
        rw [length_append, htotal] at hcut
        have hnext := nextPart_entry hb hentry
          (show before ++ (partBytes e ++ delimiter boundary ++ u) =
            before ++ (partBytes e ++ (delimiter boundary ++ u)) by rw [append_assoc]) hsize
        obtain ⟨hadd, hroom⟩ :=
          hroom.add hentry (before ++ (partBytes e ++ delimiter boundary)).length
        rw [partLoop, goesOn_ite, hnext]
        dsimp only
        rw [hadd]
        dsimp only
        split
        · rw [← append_assoc before, ← join_valid limits f e]
          exact ih (fun x hx => he x (mem_cons_of_mem _ hx)) _ hu (by omega)
            (by rwa [append_assoc before]) _ hroom rounds
        · rfl
    · have hfront := prefix_of_prefix_length_le ht
        (prefix_append (partBytes e ++ delimiter boundary) _) (Nat.le_of_not_le hlen)
      exact congrArg MultipartFormData.valid
        (partLoop_none f (nextPart_cut hb hentry before hfront (Nat.lt_of_not_le hlen)) rounds)

/-- A front of a composed body that ends before its closing delimiter does is invalid only
    if it ends in the first delimiter. -/
theorem parse_cut (hb : Boundary boundary) (entries : List Entry)
    (he : ∀ e ∈ entries, e.WellFormed boundary limits)
    (hparts : entries.length ≤ limits.maxParts)
    (hfiles : (entries.filter Entry.isFile).length ≤ limits.maxFiles) {t : Bytes}
    (hsize : t.length ≤ limits.maxTotalSize)
    (ht : t <+: delimiter boundary ++ afterDelimiter boundary entries)
    (hcut : t.length + 2 < (delimiter boundary ++ afterDelimiter boundary entries).length) :
    (parse t (text "multipart/form-data; boundary=" ++ boundary) limits).valid = false ↔
      t.length < (delimiter boundary).length := by
  have hfits := limits.fits
  rw [parse, if_neg (Nat.not_lt.mpr hsize), extractBoundary_header hb]
  dsimp only
  rw [if_neg hb.ne_nil, show text "--" ++ boundary = delimiter boundary from rfl]
  by_cases hlen : (delimiter boundary).length ≤ t.length
  · obtain ⟨u, rfl, hu, -⟩ := prefix_append_split ht hlen
    have hfirst : findFrom (delimiter boundary) (delimiter boundary ++ u) 0 = some 0 := by
      rw [findFrom, drop_zero, findText_front]
      rfl
    rw [length_append, length_append] at hcut
    have hloop := partLoop_cut hb entries he (delimiter boundary) hu (by omega)
      (Nat.lt_of_le_of_lt hsize hfits) { boundary } ⟨by simpa using hparts, by simpa using hfiles⟩
      (delimiter boundary ++ u).length
    rw [hfirst]
    dsimp only
    rw [Nat.zero_add, hloop]
    exact iff_of_false (fun h => Bool.noConfusion h) (Nat.not_lt.mpr hlen)
  · have hfront := prefix_of_prefix_length_le ht
      (prefix_append (delimiter boundary) _) (Nat.le_of_not_le hlen)
    have hwhole := findText_front (delimiter boundary) []
    rw [append_nil] at hwhole
    have hnone : findFrom (delimiter boundary) t 0 = none := by
      rw [findFrom, drop_zero, findText_cut hwhole (Nat.zero_add _) hfront
        (Nat.lt_of_not_le hlen) (cons_ne_nil _ _)]
      rfl
    rw [hnone]
    exact iff_of_true rfl (Nat.lt_of_not_le hlen)

end

/-- **Truncated uploads**: a valid form is complete exactly if it is not the case that parts
    within the limits lead to where the loop stops and something is cut there.  Of a composed
    body that fits the limits, a front that ends before the closing delimiter does is invalid
    exactly if it ends before the first delimiter does. -/
theorem truncation_reported_iff (body contentTypeHeader : Bytes) (limits : MultipartLimits) :
    (Reported body contentTypeHeader limits ↔ ¬ Truncated body contentTypeHeader limits) ∧
      ∀ (entries : List MultipartRoundTrip.Entry) (boundary fresh : Bytes),
        MultipartRoundTrip.Boundary boundary →
        (∀ e ∈ entries, e.WellFormed boundary limits) →
        entries.length ≤ limits.maxParts →
        (entries.filter MultipartRoundTrip.Entry.isFile).length ≤ limits.maxFiles →
        let form := (MultipartRoundTrip.build entries).compose fresh boundary
        form.2.length ≤ limits.maxTotalSize →
        ∀ t, t <+: form.2 → t.length + 2 < form.2.length →
          ((parse t (form.1.contentTypeHeader fresh) limits).valid = false ↔
            t.length < (text "--" ++ boundary).length) := by
  refine ⟨reported_iff body contentTypeHeader limits, ?_⟩
  intro entries boundary fresh hb he hparts hfiles form htotal t ht hcut
  obtain ⟨hlength, hlengthFiles⟩ := MultipartRoundTrip.sorted_length entries
  obtain ⟨hbody, hheader⟩ := MultipartRoundTrip.compose_entries entries fresh hb he
  have hsize : t.length ≤ limits.maxTotalSize := by omega
  rw [show form.1.contentTypeHeader fresh = _ from hheader]
  rw [show form.2 = _ from hbody] at ht hcut
  exact parse_cut hb (MultipartRoundTrip.sorted entries)
    (fun e hmem => he e (MultipartRoundTrip.sorted_mem hmem)) (hlength ▸ hparts)
    (hlengthFiles ▸ hfiles) hsize ht hcut

/-- A body that ends in the value of its only field: the form is valid, without a field. -/
theorem cut_body_valid :
    ¬ Reported (text "--b\r\nContent-Disposition: form-data; name=\"a\"\r\n\r\n1")
      (text "multipart/form-data; boundary=b") {} := by
  intro h
  obtain ⟨start, rs, stop, hstart, -, hchain, -, hclosing⟩ := h (by decide)
  obtain rfl : start = 0 := Option.some.inj (hstart.symm.trans (by decide))
  have hnone : Stops (text "--b\r\nContent-Disposition: form-data; name=\"a\"\r\n\r\n1")
      (delimiterOf (text "multipart/form-data; boundary=b"))
      (0 + (delimiterOf (text "multipart/form-data; boundary=b")).length) := .inr (by decide)
  obtain ⟨-, rfl⟩ := (Chain.nil _).unique hchain hnone (closing_stops hclosing)
  revert hclosing
  rw [Occurs]
  decide

/-- A part that is cut in its headers takes those of the next one. -/
example :
    let f := parse (text ("--b\r\nContent-Disposition: form-data; name=\"amount\"\r\n" ++
        "--b\r\nContent-Disposition: form-data; name=\"to\"\r\n\r\nz\r\n--b--\r\n"))
      (text "multipart/form-data; boundary=b") {}
    f.valid = true ∧ f.fields = [⟨text "amount", text "z"⟩] := by decide +kernel

end MultipartTruncation
