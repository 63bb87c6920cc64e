import Mathlib.Data.List.Perm.Basic
import WaveX.MultipartParts

/-! # Multipart parsing with spool tasks

    `MultipartFormData::parse_async` runs the part loop of `parse`, but leaves the writing of
    large files to tasks of the blocking pool.  The coroutine goes on when the last task has
    counted `BatchSpoolState::remaining` down.  Where a limit ends the loop, `parse_async`
    returns at once, and the files that were left to tasks stay empty. -/

namespace MultipartAsync

open QuicVarInt HttpText Multipart MultipartRounds MultipartParts List

/-! ## The loop -/

/-- A form that is returned from inside the loop, or what the loop leaves behind. -/
inductive Outcome where
  | returned (f : MultipartFormData)
  | spools (s : Spooling)

/-- The part loop of `parse_async`, for at most so many rounds. -/
def partLoopAsync (limits : MultipartLimits) (body delimiter : Bytes) :
    Nat → Nat → Spooling → Outcome
  | 0, _, s => .spools s
  | rounds + 1, pos, s =>
      if body.length ≤ pos then .spools s
      else if pos + 2 ≤ body.length && substr body pos 2 = text "--" then .spools s
      else
        match nextPart body delimiter pos with
        | none => .spools s
        | some p =>
            match addPartAsync limits s p with
            | none => .returned { s.form with valid := false }
            | some s => partLoopAsync limits body delimiter rounds p.next s

/-- `parse_async` up to its tasks. -/
def spool (body contentTypeHeader : Bytes) (limits : MultipartLimits) : Outcome :=
  if body.length > limits.maxTotalSize then .returned { valid := false }
  else
    let boundary := extractBoundary contentTypeHeader
    if boundary = [] then .returned { valid := false }
    else
      let delimiter := text "--" ++ boundary
      match findFrom delimiter body 0 with
      | none => .returned { boundary, valid := false }
      | some pos =>
          partLoopAsync limits body delimiter body.length (pos + delimiter.length)
            { form := { boundary } }

/-! ## The tasks -/

/-- `BatchSpoolState`, beside the files that the tasks write. -/
structure BatchSpoolState where
  remaining : Nat
  success : Bool := true
  files : List UploadedFile
  deriving DecidableEq

/-- The content of the file at a place. -/
def write (files : List UploadedFile) (task : Nat × Bytes) : List UploadedFile :=
  files.modify task.1 fun file => { file with content := task.2 }

/-- A task of the pool: it writes its file, when that can be opened and written, and counts
    `remaining` down. -/
def runTask (ok : Nat × Bytes → Bool) (b : BatchSpoolState) (task : Nat × Bytes) :
    BatchSpoolState where
  remaining := b.remaining - 1
  success := b.success && ok task
  files := if ok task then write b.files task else b.files

/-- The tasks complete one by one.  The one that finds the count at one posts the handler,
    and the coroutine goes on with the state that is left. -/
def await (ok : Nat × Bytes → Bool) : List (Nat × Bytes) → BatchSpoolState → Option BatchSpoolState
  | [], _ => none
  | task :: rest, b =>
      if b.remaining = 1 then some (runTask ok b task) else await ok rest (runTask ok b task)

/-- The form of `parse_async`, when its tasks complete in the order that `complete` gives;
    `none` while the coroutine waits. -/
def parseAsync (complete : List (Nat × Bytes) → List (Nat × Bytes)) (ok : Nat × Bytes → Bool)
    (body contentTypeHeader : Bytes) (limits : MultipartLimits) : Option MultipartFormData :=
  match spool body contentTypeHeader limits with
  | .returned f => some f
  | .spools s =>
      if s.tasks = [] then some s.form
      else
        (await ok (complete s.tasks) { remaining := s.tasks.length, files := s.form.files }).map
          fun b =>
            { s.form with files := b.files, valid := if b.success then s.form.valid else false }

/-! ## The contract -/

/-- The forms have the same validity, the same fields and the same files. -/
def SameForm (f g : MultipartFormData) : Prop :=
  g.valid = f.valid ∧ g.fields = f.fields ∧ g.files = f.files

/-- A part exceeds a limit, the first one to do so, behind a file that is not kept in memory. -/
def SpoolsLost (limits : MultipartLimits) (parts : List Part) : Prop :=
  ∃ done p rest, parts = done ++ p :: rest ∧ ¬ LimitHit limits [] done ∧
    exceeds limits done p = true ∧
    ∃ q ∈ done, isFile q = true ∧ limits.maxMemoryBuffer < q.content.length

/-- The body is not refused at once, and its parts lose what was left to tasks. -/
structure Unwritten (body contentTypeHeader : Bytes) (limits : MultipartLimits) : Prop where
  size : body.length ≤ limits.maxTotalSize
  boundary : extractBoundary contentTypeHeader ≠ []
  lost : ∃ start, findFrom (delimiterOf contentTypeHeader) body 0 = some start ∧
    SpoolsLost limits ((walkOf body contentTypeHeader start).1.map
      (Round.part body (delimiterOf contentTypeHeader)))

/-! ## The parts of both loops -/

/-- The parts join the form of `parse_async` one by one. -/
def joinAllAsync (limits : MultipartLimits) : Spooling → List Part → Outcome
  | s, [] => .spools s
  | s, p :: rest =>
      match addPartAsync limits s p with
      | none => .returned { s.form with valid := false }
      | some s => joinAllAsync limits s rest

/-- What the loop of `parse_async` leaves is made of the parts of the walk. -/
theorem partLoopAsync_walk (limits : MultipartLimits) (body delimiter : Bytes) (fuel pos : Nat)
    (s : Spooling) :
    partLoopAsync limits body delimiter fuel pos s =
      joinAllAsync limits s
        ((walk body delimiter fuel pos).1.map (Round.part body delimiter)) := by
  induction fuel generalizing pos s with
  | zero => rfl
  | succ fuel ih =>
    rw [partLoopAsync, goesOn_ite, walk, nextPart_eq]
    cases goesOn body pos with
    | false => rfl
    | true =>
      cases searches body delimiter pos with
      | none => rfl
      | some r =>
        rw [if_pos rfl, if_pos rfl, Option.map_some]
        dsimp only
        rw [map_cons, joinAllAsync]
        cases addPartAsync limits s (r.part body delimiter) with
        | none => rfl
        | some s => exact ih _ s

/-! ## What is left to tasks -/

/-- A file before its task has run. -/
def drain (file : UploadedFile) : UploadedFile :=
  if file.onDisk then { file with content := [] } else file

/-- The tasks of files that stand from a place on. -/
def tasksFrom : Nat → List UploadedFile → List (Nat × Bytes)
  | _, [] => []
  | i, file :: rest =>
      if file.onDisk then (i, file.content) :: tasksFrom (i + 1) rest else tasksFrom (i + 1) rest

/-- The state of `parse_async` where `parse` has the form `f`. -/
def spooling (f : MultipartFormData) : Spooling where
  form := { f with files := f.files.map drain }
  tasks := tasksFrom 0 f.files

theorem tasksFrom_snoc (i : Nat) (files : List UploadedFile) (file : UploadedFile) :
    tasksFrom i (files ++ [file]) =
      tasksFrom i files ++ if file.onDisk then [(i + files.length, file.content)] else [] := by
  induction files generalizing i with
  | nil =>
    rw [nil_append, tasksFrom, tasksFrom, tasksFrom, nil_append]
    rfl
  | cons x files ih =>
    have hplace : i + 1 + files.length = i + (x :: files).length := by
      rw [length_cons]
      omega
    rw [cons_append, tasksFrom, tasksFrom, ih, hplace]
    cases x.onDisk with
    | true => rfl
    | false => rfl

/-- A task holds the content of the file at its place. -/
theorem tasksFrom_mem {i : Nat} {files : List UploadedFile} {task : Nat × Bytes}
    (h : task ∈ tasksFrom i files) :
    i ≤ task.1 ∧ (files[task.1 - i]?).map UploadedFile.content = some task.2 := by
  induction files generalizing i with
  | nil => exact absurd h not_mem_nil
  | cons x files ih =>
    have hrest : task ∈ tasksFrom (i + 1) files →
        i ≤ task.1 ∧ ((x :: files)[task.1 - i]?).map UploadedFile.content = some task.2 := by
      intro hmem
      obtain ⟨hle, hcontent⟩ := ih hmem
      have hplace : task.1 - i = task.1 - (i + 1) + 1 := by omega
      refine ⟨by omega, ?_⟩
      rw [hplace, getElem?_cons_succ]
      exact hcontent
    rw [tasksFrom] at h
    cases hdisk : x.onDisk with
    | false =>
      rw [hdisk, if_neg Bool.false_ne_true] at h
      exact hrest h
    | true =>
      rw [hdisk, if_pos rfl] at h
      rcases mem_cons.mp h with rfl | hmem
      · refine ⟨Nat.le_refl i, ?_⟩
        show ((x :: files)[i - i]?).map UploadedFile.content = some x.content
        rw [Nat.sub_self]
        rfl
      · exact hrest hmem

/-- A part joins both forms, or exceeds a limit of both. -/
theorem addPartAsync_spooling (limits : MultipartLimits) (f : MultipartFormData) (p : Part) :
    addPartAsync limits (spooling f) p = (addPart limits f p).map spooling := by
  have hfiles : (spooling f).form.files.length = f.files.length := length_map drain
  rw [addPartAsync, addPart]
  dsimp only
  rw [hfiles, show (spooling f).form.fields = f.fields from rfl]
  split
  · rfl
  · split
    · rfl
    · split
      · rfl
      · split
        · rfl
        · split
          · rfl
          · rw [Option.map_some, spooling, spooling]
            dsimp only
            rw [map_append, tasksFrom_snoc, Nat.zero_add]
            by_cases hlarge : p.content.length > limits.maxMemoryBuffer
            · rw [if_pos hlarge, if_pos hlarge, if_pos (decide_eq_true hlarge)]
              simp only [decide_eq_true hlarge, map_cons, map_nil, drain, if_pos]
            · rw [if_neg hlarge, if_neg hlarge, decide_eq_false hlarge, if_neg Bool.false_ne_true,
                append_nil]
              rfl

/-! ## The tasks in any order -/

theorem write_at (before : List UploadedFile) (file : UploadedFile) (rest : List UploadedFile)
    (content : Bytes) :
    write (before ++ file :: rest) (before.length, content) =
      before ++ { file with content } :: rest := by
  rw [write]
  induction before with
  | nil => exact modify_zero_cons _ _ _
  | cons x before ih =>
    rw [cons_append, length_cons, modify_succ_cons]
    exact congrArg (List.cons x) ih

theorem drain_filled {file : UploadedFile} (h : file.onDisk = true) :
    { drain file with content := file.content } = file := by
  rw [drain, if_pos h]

/-- In the order of the files the tasks fill them all. -/
theorem write_tasks (before files : List UploadedFile) :
    (tasksFrom before.length files).foldl write (before ++ files.map drain) = before ++ files := by
  induction files generalizing before with
  | nil => rfl
  | cons x files ih =>
    have hsnoc : ∀ rest : List UploadedFile, before ++ x :: rest = (before ++ [x]) ++ rest :=
      fun rest => (append_cons before x rest)
    have hrest := ih (before ++ [x])
    rw [length_append, length_singleton, ← hsnoc, ← hsnoc] at hrest
    rw [tasksFrom, map_cons]
    cases hdisk : x.onDisk with
    | false =>
      rw [if_neg Bool.false_ne_true, drain, hdisk, if_neg Bool.false_ne_true]
      exact hrest
    | true =>
      rw [if_pos rfl, foldl_cons, write_at, drain_filled hdisk]
      exact hrest

/-- Two tasks of the files may change places. -/
theorem write_comm {files : List UploadedFile} {x y : Nat × Bytes} (hx : x ∈ tasksFrom 0 files)
    (hy : y ∈ tasksFrom 0 files) (z : List UploadedFile) :
    write (write z x) y = write (write z y) x := by
  by_cases hplace : x.1 = y.1
  · have hcontent : x.2 = y.2 := by
      have hx' := (tasksFrom_mem hx).2
      have hy' := (tasksFrom_mem hy).2
      rw [hplace] at hx'
      exact Option.some.inj (hx'.symm.trans hy')
    rw [show x = y from Prod.ext hplace hcontent]
  · exact modify_modify_ne _ _ z hplace

/-- The tasks fill the files in whichever order they complete. -/
theorem write_perm {files : List UploadedFile} {order : List (Nat × Bytes)}
    (h : order.Perm (tasksFrom 0 files)) :
    order.foldl write (files.map drain) = files := by
  rw [h.foldl_eq' (fun x hx y hy z => write_comm (h.subset hx) (h.subset hy) z)]
  exact write_tasks [] files

/-- The coroutine goes on behind the last of its tasks. -/
theorem await_all (ok : Nat × Bytes → Bool) {order : List (Nat × Bytes)} (hne : order ≠ [])
    {b : BatchSpoolState} (h : b.remaining = order.length) :
    await ok order b = some (order.foldl (runTask ok) b) := by
  induction order generalizing b with
  | nil => exact absurd rfl hne
  | cons task rest ih =>
    rw [await, foldl_cons]
    cases rest with
    | nil =>
      rw [if_pos (show b.remaining = 1 from h)]
      rfl
    | cons next rest =>
      rw [length_cons, length_cons] at h
      rw [if_neg (by omega)]
      refine ih (cons_ne_nil _ _) ?_
      show b.remaining - 1 = (next :: rest).length
      rw [length_cons]
      omega

/-- Tasks that all write their files. -/
theorem runTask_all {ok : Nat × Bytes → Bool} (hok : ∀ task, ok task = true)
    (order : List (Nat × Bytes)) (b : BatchSpoolState) :
    (order.foldl (runTask ok) b).files = order.foldl write b.files ∧
      (order.foldl (runTask ok) b).success = b.success := by
  induction order generalizing b with
  | nil => exact ⟨rfl, rfl⟩
  | cons task rest ih =>
    obtain ⟨hfiles, hsuccess⟩ := ih (runTask ok b task)
    rw [foldl_cons, foldl_cons, hfiles, hsuccess, runTask]
    dsimp only
    rw [hok, if_pos rfl, Bool.and_true]
    exact ⟨rfl, rfl⟩

/-! ## The forms of both loops -/

/-- The loops reach the end of their parts with the same form, but for what is left to tasks,
    or the first part that exceeds a limit ends both. -/
theorem joinAll_async (limits : MultipartLimits) {f : MultipartFormData} {before : List Part}
    (h : Counted f before) (parts : List Part) :
    (∃ done p rest f', parts = done ++ p :: rest ∧ ¬ LimitHit limits before done ∧
        exceeds limits (before ++ done) p = true ∧
        f'.files = f.files ++ (done.filter isFile).map (fileOf limits) ∧
        joinAll limits f parts = { f' with valid := false } ∧
        joinAllAsync limits (spooling f) parts =
          .returned { (spooling f').form with valid := false }) ∨
      ¬ LimitHit limits before parts ∧
        joinAllAsync limits (spooling f) parts = .spools (spooling (joinAll limits f parts)) := by
  induction parts generalizing f before with
  | nil =>
    refine .inr ⟨?_, rfl⟩
    rintro ⟨done, p, rest, heq, -⟩
    exact append_ne_nil_of_right_ne_nil done (cons_ne_nil p rest) heq.symm
  | cons p parts ih =>
    rw [joinAll, joinAllAsync, addPartAsync_spooling]
    rcases addPart_cases limits h p with ⟨hexceeds, hnone⟩ | ⟨hexceeds, g, hsome, hg, -, hfiles⟩
    · rw [hnone]
      refine .inl ⟨[], p, parts, f, rfl, ?_, ?_, ?_, rfl, rfl⟩
      · rintro ⟨done, q, rest, heq, -⟩
        exact append_ne_nil_of_right_ne_nil done (cons_ne_nil q rest) heq.symm
      · rwa [append_nil]
      · exact (append_nil f.files).symm
    · rw [hsome, Option.map_some]
      dsimp only
      have hfirst : ¬ exceeds limits before p = true := by
        rw [hexceeds]
        exact Bool.false_ne_true
      rcases ih hg with ⟨done, q, rest, f', heq, hbefore, hlimit, hfiles', hsync, hasync⟩ |
        ⟨hbefore, hasync⟩
      · refine .inl ⟨p :: done, q, rest, f', congrArg (List.cons p) heq, ?_, ?_, ?_, hsync, hasync⟩
        · rw [limitHit_cons]
          exact not_or.mpr ⟨hfirst, hbefore⟩
        · rwa [append_cons]
        · rw [hfiles', hfiles, append_assoc]
          cases hfile : isFile p with
          | true =>
            rw [filter_cons_of_pos hfile, if_pos rfl, map_cons]
            rfl
          | false =>
            rw [filter_cons_of_neg (by rw [hfile]; exact Bool.false_ne_true),
              if_neg Bool.false_ne_true]
            rfl
      · refine .inr ⟨?_, hasync⟩
        rw [limitHit_cons]
        exact not_or.mpr ⟨hfirst, hbefore⟩

/-- There is one first part that exceeds a limit. -/
theorem first_unique {limits : MultipartLimits} {done done' rest rest' : List Part} {p p' : Part}
    (heq : done ++ p :: rest = done' ++ p' :: rest') (hdone : ¬ LimitHit limits [] done)
    (hdone' : ¬ LimitHit limits [] done') (hp : exceeds limits done p = true)
    (hp' : exceeds limits done' p' = true) : done = done' := by
  rcases append_eq_append_iff.mp heq with ⟨more, rfl, hmore⟩ | ⟨more, rfl, hmore⟩
  · cases more with
    | nil => exact (append_nil done).symm
    | cons q more =>
      obtain ⟨rfl, -⟩ := List.cons.inj hmore
      exact absurd ⟨done, p, more, rfl, hp⟩ hdone'
  · cases more with
    | nil => exact append_nil done'
    | cons q more =>
      obtain ⟨rfl, -⟩ := List.cons.inj hmore
      exact absurd ⟨done', p', more, rfl, hp'⟩ hdone

/-- Files are drained as they are exactly if none on disk has a content. -/
theorem drain_all_iff (files : List UploadedFile) :
    files.map drain = files ↔ ∀ file ∈ files, file.onDisk = true → file.content = [] := by
  have hself : files.map drain = files.map id ↔ ∀ file ∈ files, drain file = id file :=
    map_inj_left
  rw [map_id] at hself
  rw [hself]
  refine forall₂_congr fun file _ => ?_
  rw [drain, id]
  cases hdisk : file.onDisk with
  | false => exact iff_of_true rfl fun h => absurd h Bool.false_ne_true
  | true =>
    rw [if_pos rfl]
    constructor
    · intro h _
      exact (congrArg UploadedFile.content h).symm
    · intro h
      rw [← h rfl, ← hdisk]

/-- The files of parts keep a content on disk exactly if one of them is large. -/
theorem files_drained_iff (limits : MultipartLimits) (done : List Part) :
    ((done.filter isFile).map (fileOf limits)).map drain =
        (done.filter isFile).map (fileOf limits) ↔
      ¬ ∃ q ∈ done, isFile q = true ∧ limits.maxMemoryBuffer < q.content.length := by
  rw [drain_all_iff]
  constructor
  · rintro h ⟨q, hq, hfile, hlarge⟩
    have hempty : q.content = [] := h _ (mem_map_of_mem (mem_filter.mpr ⟨hq, hfile⟩))
      (decide_eq_true hlarge)
    rw [hempty] at hlarge
    exact absurd hlarge (Nat.not_lt_zero _)
  · intro h file hmem hdisk
    obtain ⟨q, hq, rfl⟩ := mem_map.mp hmem
    obtain ⟨hq, hfile⟩ := mem_filter.mp hq
    exact absurd ⟨q, hq, hfile, of_decide_eq_true hdisk⟩ h

section

variable {complete : List (Nat × Bytes) → List (Nat × Bytes)} {ok : Nat × Bytes → Bool}

/-- What the coroutine returns when its tasks fill the files of a form. -/
theorem finish (hcomplete : ∀ tasks, (complete tasks).Perm tasks) (hok : ∀ task, ok task = true)
    (f : MultipartFormData) :
    (if (spooling f).tasks = [] then some (spooling f).form
      else (await ok (complete (spooling f).tasks)
          { remaining := (spooling f).tasks.length, files := (spooling f).form.files }).map
        fun b => { (spooling f).form with
          files := b.files, valid := if b.success then (spooling f).form.valid else false }) =
      some f := by
  by_cases htasks : (spooling f).tasks = []
  · have hfiles : f.files.map drain = f.files := by
      have hwrite := write_tasks [] f.files
      rwa [show tasksFrom ([] : List UploadedFile).length f.files = [] from htasks] at hwrite
    rw [if_pos htasks, spooling, hfiles]
  · have horder := hcomplete (spooling f).tasks
    have hne : complete (spooling f).tasks ≠ [] := by
      intro h
      rw [h] at horder
      exact htasks horder.nil_eq.symm
    obtain ⟨hfiles, hsuccess⟩ := runTask_all hok (complete (spooling f).tasks)
      { remaining := (spooling f).tasks.length, files := (spooling f).form.files }
    rw [if_neg htasks, await_all ok hne horder.length_eq.symm, Option.map_some, hfiles, hsuccess]
    dsimp only
    rw [show (spooling f).form.files = f.files.map drain from rfl, write_perm horder, if_pos rfl]
    rfl

/-- What the coroutine returns behind a body whose parts the loop goes through. -/
theorem parts_agree_iff (hcomplete : ∀ tasks, (complete tasks).Perm tasks)
    (hok : ∀ task, ok task = true) (limits : MultipartLimits) (boundary : Bytes)
    (parts : List Part) :
    (∃ g, (match joinAllAsync limits { form := { boundary } } parts with
        | .returned f => some f
        | .spools s =>
            if s.tasks = [] then some s.form
            else
              (await ok (complete s.tasks)
                  { remaining := s.tasks.length, files := s.form.files }).map
                fun b => { s.form with
                  files := b.files, valid := if b.success then s.form.valid else false }) =
        some g ∧ SameForm (joinAll limits { boundary } parts) g) ↔
      ¬ SpoolsLost limits parts := by
  have hstart : ({ form := { boundary } } : Spooling) = spooling { boundary } := rfl
  rw [hstart]
  rcases joinAll_async limits (counted_empty boundary) parts with
    ⟨done, p, rest, f, rfl, hdone, hp, hfiles, hsync, hasync⟩ | ⟨hlimit, hasync⟩
  · rw [hasync, hsync]
    have hlost : SpoolsLost limits (done ++ p :: rest) ↔
        ∃ q ∈ done, isFile q = true ∧ limits.maxMemoryBuffer < q.content.length := by
      constructor
      · rintro ⟨done', p', rest', heq, hdone', hp', hlarge⟩
        rwa [first_unique heq hdone hdone' hp hp']
      · intro hlarge
        exact ⟨done, p, rest, rfl, hdone, hp, hlarge⟩
    rw [hlost, ← files_drained_iff]
    rw [show ({ boundary } : MultipartFormData).files = [] from rfl, nil_append] at hfiles
    rw [← hfiles]
    constructor
    · rintro ⟨g, hg, -, -, hsame⟩
      obtain rfl := Option.some.inj hg
      exact hsame
    · intro hsame
      exact ⟨_, rfl, rfl, rfl, hsame⟩
  · rw [hasync]
    dsimp only
    rw [finish hcomplete hok]
    refine iff_of_true ⟨_, rfl, rfl, rfl, rfl⟩ ?_
    rintro ⟨done, p, rest, heq, -, hp, -⟩
    exact hlimit ⟨done, p, rest, heq, hp⟩

/-- **Both parsers**: whatever the order in which the tasks complete, `parse_async` returns the
    form of `parse` exactly if no part exceeds a limit behind a file that was left to a
    task. -/
theorem async_agrees_iff (hcomplete : ∀ tasks, (complete tasks).Perm tasks)
    (hok : ∀ task, ok task = true) (body contentTypeHeader : Bytes) (limits : MultipartLimits) :
    (∃ g, parseAsync complete ok body contentTypeHeader limits = some g ∧
        SameForm (parse body contentTypeHeader limits) g) ↔
      ¬ Unwritten body contentTypeHeader limits := by
  rw [parseAsync, spool]
  by_cases hsize : body.length > limits.maxTotalSize
  · rw [if_pos hsize, parse, if_pos hsize]
    refine iff_of_true ⟨_, rfl, rfl, rfl, rfl⟩ ?_
    rintro ⟨hfits, -, -⟩
    exact absurd hsize (Nat.not_lt.mpr hfits)
  · rw [if_neg hsize]
    dsimp only
    by_cases hboundary : extractBoundary contentTypeHeader = []
    · rw [if_pos hboundary, parse, if_neg hsize, if_pos hboundary]
      refine iff_of_true ⟨_, rfl, rfl, rfl, rfl⟩ ?_
      rintro ⟨-, hne, -⟩
      exact hne hboundary
    · rw [if_neg hboundary]
      cases hstart : findFrom (delimiterOf contentTypeHeader) body 0 with
      | none =>
        rw [parse, if_neg hsize, if_neg hboundary]
        rw [delimiterOf] at hstart
        dsimp only
        rw [hstart]
        refine iff_of_true ⟨_, rfl, rfl, rfl, rfl⟩ ?_
        rintro ⟨-, -, start, hstart', -⟩
        rw [delimiterOf, hstart] at hstart'
        cases hstart'
      | some start =>
        have hsync := parse_eq (Nat.not_lt.mp hsize) hboundary hstart
        have hlost : Unwritten body contentTypeHeader limits ↔
            SpoolsLost limits ((walkOf body contentTypeHeader start).1.map
              (Round.part body (delimiterOf contentTypeHeader))) := by
          constructor
          · rintro ⟨-, -, start', hstart', hlost⟩
            obtain rfl := Option.some.inj (hstart.symm.trans hstart')
            exact hlost
          · intro hlost
            exact ⟨Nat.not_lt.mp hsize, hboundary, start, hstart, hlost⟩
        rw [hsync, hlost, ← parts_agree_iff hcomplete hok]
        rw [delimiterOf] at hstart
        rw [hstart]
        dsimp only
        rw [partLoopAsync_walk]
        rfl

end

/-- Two files, of one byte and of two. -/
def twoFiles : Bytes :=
  text "--b\r\nContent-Disposition: form-data; name=\"a\"; filename=\"f\"\r\n\r\nx\r\n" ++
    text "--b\r\nContent-Disposition: form-data; name=\"c\"; filename=\"g\"\r\n\r\nyz\r\n--b--\r\n"

/-- When no file is kept in memory, both are left to tasks, and these may complete in the
    opposite order. -/
theorem async_agrees_iff_reverse :
    (match spool twoFiles (text "multipart/form-data; boundary=b") { maxMemoryBuffer := 0 } with
      | .returned _ => []
      | .spools s => s.tasks) = [(0, text "x"), (1, text "yz")] ∧
    ((∃ g, parseAsync List.reverse (fun _ => true) twoFiles
          (text "multipart/form-data; boundary=b") { maxMemoryBuffer := 0 } = some g ∧
        SameForm (parse twoFiles (text "multipart/form-data; boundary=b")
          { maxMemoryBuffer := 0 }) g) ↔
      ¬ Unwritten twoFiles (text "multipart/form-data; boundary=b") { maxMemoryBuffer := 0 }) :=
  ⟨by decide +kernel, async_agrees_iff reverse_perm (fun _ => rfl) _ _ _⟩

/-- A file that is not kept in memory, and a field behind it that is one part too many: the
    file that `parse` wrote stays empty. -/
theorem file_unwritten :
    ¬ ∃ g, parseAsync id (fun _ => true)
        (text "--b\r\nContent-Disposition: form-data; name=\"a\"; filename=\"f\"\r\n\r\nx\r\n--b\r\nContent-Disposition: form-data; name=\"c\"\r\n\r\n1\r\n--b--\r\n")
        (text "multipart/form-data; boundary=b") { maxMemoryBuffer := 0, maxParts := 1 } = some g ∧
      SameForm (parse
        (text "--b\r\nContent-Disposition: form-data; name=\"a\"; filename=\"f\"\r\n\r\nx\r\n--b\r\nContent-Disposition: form-data; name=\"c\"\r\n\r\n1\r\n--b--\r\n")
        (text "multipart/form-data; boundary=b") { maxMemoryBuffer := 0, maxParts := 1 }) g := by
  rintro ⟨g, hg, -, -, hfiles⟩
  have hasync := congrArg (Option.map MultipartFormData.files) hg
  rw [Option.map_some, hfiles] at hasync
  exact absurd hasync (by decide +kernel)

end MultipartAsync
