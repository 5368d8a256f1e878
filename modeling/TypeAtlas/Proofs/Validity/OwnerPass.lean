/-
The pass over the chains of owners, one step after another.

`Image.checkChains` takes up every declaration with a path of its own and looks an owner up
without relying on its being there.  Here the pass is a machine that holds what a program
would: one memo for all kinds, a path that each record leaves to the next one of its kind, and
ids and records that are made and read under contract.  A step is classified once, by
`OwnerMove`.  That the machine stops and what it has done wherever it stands are read off
the moves.
-/
import Mathlib.Logic.Function.Iterate
import TypeAtlas.Proofs.Text
import TypeAtlas.Proofs.Validity.Strays
import TypeAtlas.Proofs.Validity.Trust

namespace TypeAtlas
namespace Image

/-- The loop over the records of a kind. -/
structure OwnerLoop where
  kind : DeclKind
  /-- The kinds whose loops come later. -/
  later : List DeclKind
  index : Nat
  path : Array DeclId

/-- The declaration that a loop has in hand. -/
def OwnerLoop.decl (loop : OwnerLoop) : DeclId := ⟨loop.kind, .ofNat loop.index⟩

inductive OwnerPoint where
  /-- Before the loops over some kinds. -/
  | kinds (left : List DeclKind)
  /-- Before a record is taken up. -/
  | record (loop : OwnerLoop)
  /-- On the way up from a record, before the next owner is looked at. -/
  | owner (loop : OwnerLoop) (next : Option DeclId)
  | stopped (answer : Contract (Except ImageFault Unit))

structure OwnerPass where
  /-- The declarations known to lie under the root, for all loops. -/
  memo : Std.HashSet DeclId
  point : OwnerPoint

section steps

variable (img : Image)

def refuse (memo : Std.HashSet DeclId) (loop : OwnerLoop) : OwnerPass :=
  ⟨memo, .stopped (.ok (.error (.parentCycle loop.kind loop.index)))⟩

/-- One step.  A walk ends at an owner that is remembered, and what it passed is remembered
then too. -/
def ownerStep (s : OwnerPass) : OwnerPass :=
  match s.point with
  | .kinds [] => ⟨s.memo, .stopped (.ok (.ok ()))⟩
  | .kinds (k :: later) => ⟨s.memo, .record ⟨k, later, 0, #[]⟩⟩
  | .record loop =>
    if loop.index < (img.arena (.decl loop.kind)).size then
      match (Id.ofIndexChecked loop.index : Contract (Id (.decl loop.kind))) with
      | .ok id => ⟨s.memo, .owner loop (some id.decl)⟩
      | .error breach => ⟨s.memo, .stopped (.error breach)⟩
    else ⟨s.memo, .kinds loop.later⟩
  | .owner loop none => refuse s.memo loop
  | .owner loop (some d) =>
    if s.memo.contains d then
      ⟨s.memo.insertMany loop.path, .record { loop with index := loop.index + 1, path := #[] }⟩
    -- With more of them on the path than there are records, one was passed twice.
    else if img.recordCount < loop.path.size then refuse s.memo loop
    else
      match img.ref d.id with
      | .ok r => ⟨s.memo, .owner { loop with path := loop.path.push d } r.record.parent⟩
      | .error breach => ⟨s.memo, .stopped (.error breach)⟩
  | .stopped _ => s

/-- Where the pass stands after so many steps. -/
def ownerPass (n : Nat) : OwnerPass :=
  img.ownerStep^[n] ⟨.ofList [.root], .kinds DeclKind.all⟩

end steps

/-! ## Moves -/

/-- What a step does, and when. -/
inductive OwnerMove (img : Image) : OwnerPass → OwnerPass → Prop
  | finish {memo} : OwnerMove img ⟨memo, .kinds []⟩ ⟨memo, .stopped (.ok (.ok ()))⟩
  | enter {memo k later} :
      OwnerMove img ⟨memo, .kinds (k :: later)⟩ ⟨memo, .record ⟨k, later, 0, #[]⟩⟩
  | take {memo} {loop : OwnerLoop} (held : loop.index < (img.arena (.decl loop.kind)).size) :
      OwnerMove img ⟨memo, .record loop⟩ ⟨memo, .owner loop (some loop.decl)⟩
  | overflow {memo} {loop : OwnerLoop} (held : loop.index < (img.arena (.decl loop.kind)).size)
      (large : UInt32.size ≤ loop.index) :
      OwnerMove img ⟨memo, .record loop⟩ ⟨memo, .stopped (.error (.indexTooLarge loop.index))⟩
  | leave {memo} {loop : OwnerLoop} (through : (img.arena (.decl loop.kind)).size ≤ loop.index) :
      OwnerMove img ⟨memo, .record loop⟩ ⟨memo, .kinds loop.later⟩
  | accept {memo d} {loop : OwnerLoop} (known : d ∈ memo) :
      OwnerMove img ⟨memo, .owner loop (some d)⟩
        ⟨memo.insertMany loop.path, .record { loop with index := loop.index + 1, path := #[] }⟩
  | climb {memo d r} {loop : OwnerLoop} (new : d ∉ memo)
      (room : loop.path.size ≤ img.recordCount) (read : img.ref d.id = .ok r) :
      OwnerMove img ⟨memo, .owner loop (some d)⟩
        ⟨memo, .owner { loop with path := loop.path.push d } r.record.parent⟩
  | dangle {memo d breach} {loop : OwnerLoop} (new : d ∉ memo)
      (read : img.ref d.id = .error breach) :
      OwnerMove img ⟨memo, .owner loop (some d)⟩ ⟨memo, .stopped (.error breach)⟩
  | refuse {memo next} {loop : OwnerLoop}
      (stuck : ∀ d, next = some d → img.recordCount < loop.path.size) :
      OwnerMove img ⟨memo, .owner loop next⟩ (refuse memo loop)

variable {img : Image} {s t : OwnerPass} {memo : Std.HashSet DeclId} {loop : OwnerLoop}
  {next : Option DeclId} {path : Array DeclId} {d p : DeclId} {n : Nat}

theorem stopped_or_move (img : Image) (s : OwnerPass) :
    (∃ answer, s.point = .stopped answer) ∨ img.OwnerMove s (img.ownerStep s) := by
  obtain ⟨memo, point⟩ := s
  by_cases hstopped : ∃ answer, point = .stopped answer
  · exact .inl hstopped
  refine .inr ?_
  cases point with
  | kinds left =>
    cases left with
    | nil => exact .finish
    | cons k later => exact .enter
  | record loop =>
    by_cases hheld : loop.index < (img.arena (.decl loop.kind)).size
    · simp only [ownerStep, if_pos hheld, Id.ofIndexChecked]
      by_cases hfits : loop.index < UInt32.size
      · rw [if_pos hfits]
        exact .take hheld
      · rw [if_neg hfits]
        exact .overflow hheld (Nat.le_of_not_lt hfits)
    · simp only [ownerStep, if_neg hheld]
      exact .leave (Nat.le_of_not_lt hheld)
  | owner loop next =>
    cases next with
    | none => exact .refuse fun _ h => nomatch h
    | some d =>
      by_cases hknown : d ∈ memo
      · simp only [ownerStep, Std.HashSet.contains_iff_mem, if_pos hknown]
        exact .accept hknown
      by_cases hroom : img.recordCount < loop.path.size
      · simp only [ownerStep, Std.HashSet.contains_iff_mem, if_neg hknown, if_pos hroom]
        exact .refuse fun _ _ => hroom
      simp only [ownerStep, Std.HashSet.contains_iff_mem, if_neg hknown, if_neg hroom]
      cases hread : img.ref d.id with
      | ok r => exact .climb hknown (Nat.le_of_not_lt hroom) hread
      | error breach => exact .dangle hknown hread
  | stopped answer => exact absurd ⟨answer, rfl⟩ hstopped

/-! ## Stopping -/

/-- The most steps that a record takes: one for every place of the path, and a few to take the
record up and to let it go. -/
def stepsEach (img : Image) : Nat := img.recordCount + 4

def stepsFor (img : Image) (kinds : List DeclKind) : Nat :=
  kinds.foldr (fun k n => (img.arena (.decl k)).size * img.stepsEach + 2 + n) 1

/-- The most steps that are taken for the records of a kind from an index on, and for the kinds
after it. -/
def stepsFrom (img : Image) (k : DeclKind) (i : Nat) (later : List DeclKind) : Nat :=
  ((img.arena (.decl k)).size - i) * img.stepsEach + img.stepsFor later

/-- The most steps that are left. -/
def stepsLeft (img : Image) : OwnerPoint → Nat
  | .kinds left => img.stepsFor left
  | .record loop => img.stepsFrom loop.kind loop.index loop.later + 1
  | .owner loop _ =>
    img.stepsFrom loop.kind (loop.index + 1) loop.later
      + (img.recordCount + 2 - loop.path.size) + 2
  | .stopped _ => 0

theorem stepsFrom_of_lt {k : DeclKind} {i : Nat} {later : List DeclKind}
    (hi : i < (img.arena (.decl k)).size) :
    img.stepsFrom k i later = img.stepsFrom k (i + 1) later + img.stepsEach := by
  have hleft : (img.arena (.decl k)).size - i = (img.arena (.decl k)).size - (i + 1) + 1 := by
    omega
  rw [stepsFrom, stepsFrom, hleft, Nat.succ_mul, Nat.add_right_comm]

theorem OwnerMove.stepsLeft_lt (h : img.OwnerMove s t) :
    img.stepsLeft t.point < img.stepsLeft s.point := by
  cases h with
  | finish => exact Nat.one_pos
  | enter =>
    simp only [stepsLeft, stepsFrom, stepsFor, List.foldr_cons, Nat.sub_zero]
    omega
  | take held =>
    simp only [stepsLeft, stepsFrom_of_lt held, stepsEach]
    omega
  | leave =>
    simp only [stepsLeft, stepsFrom]
    omega
  | accept =>
    simp only [stepsLeft]
    omega
  | climb _ room =>
    simp only [stepsLeft, Array.size_push]
    omega
  | overflow | dangle | refuse => exact Nat.succ_pos _

theorem ownerStep_stopped {answer : Contract (Except ImageFault Unit)}
    (h : s.point = .stopped answer) : img.ownerStep s = s := by
  rw [ownerStep, h]

/-- The pass stops, at the latest when no more steps are left. -/
theorem exists_answer (hsteps : img.stepsLeft s.point ≤ n) :
    ∃ answer, (img.ownerStep^[n] s).point = .stopped answer := by
  induction n generalizing s with
  | zero =>
    refine (img.stopped_or_move s).resolve_right fun hmove => ?_
    have hlt := hmove.stepsLeft_lt
    omega
  | succ n ih =>
    rcases img.stopped_or_move s with ⟨answer, hanswer⟩ | hmove
    · refine ⟨answer, ?_⟩
      rw [Function.iterate_fixed (ownerStep_stopped hanswer), hanswer]
    · have hlt := hmove.stepsLeft_lt
      exact ih (by omega)

theorem stepsFor_eq (img : Image) (kinds : List DeclKind) :
    img.stepsFor kinds = kinds.foldr (fun k n => (img.arena (.decl k)).size + n) 0 * img.stepsEach
      + 2 * kinds.length + 1 := by
  induction kinds with
  | nil => rw [stepsFor, List.foldr_nil, List.foldr_nil, List.length_nil, Nat.zero_mul]
  | cons k kinds ih =>
    rw [stepsFor, List.foldr_cons, ← stepsFor, ih, List.foldr_cons, Nat.add_mul, List.length_cons]
    omega

/-- The most steps that the whole pass takes. -/
def stepLimit (img : Image) : Nat := img.recordCount * (img.recordCount + 4) + 19

theorem stepsFor_all_le (img : Image) : img.stepsFor DeclKind.all ≤ img.stepLimit := by
  have hsum : DeclKind.all.foldr (fun k n => (img.arena (.decl k)).size + n) 0 ≤
      img.recordCount := by
    simpa [declarations, DeclKind.all] using img.length_declarations_le
  have hmul := Nat.mul_le_mul_right img.stepsEach hsum
  rw [stepsFor_eq, stepLimit]
  exact Nat.add_le_add_right hmul 19

/-! ## What holds on the way -/

/-- Owners have been followed from a declaration through a path to the next one. -/
structure Climbs (img : Image) (d : DeclId) (path : Array DeclId) (next : Option DeclId) :
    Prop where
  known : ∀ p, next = some p → img.Knows p
  short : path.size ≤ img.recordCount + 1
  /-- If the next one lies under the root, so does all that was passed. -/
  lifts : ∀ p, next = some p → img.Rooted p → img.Rooted d ∧ ∀ e ∈ path, img.Rooted e
  /-- If the first one does, the next one does and has not been passed. -/
  leads : img.Rooted d → ∃ p, next = some p ∧ img.Rooted p ∧ img.LeadsTo path p

theorem Climbs.start (hd : img.Knows d) : img.Climbs d #[] (some d) where
  known p hp := Option.some.inj hp ▸ hd
  short := Nat.zero_le _
  lifts p hp hrooted := ⟨Option.some.inj hp ▸ hrooted, by simp⟩
  leads hrooted := ⟨d, rfl, hrooted, .empty⟩

theorem Climbs.push (hfit : img.OwnersFit) (h : img.Climbs d path (some p)) (hp : p ≠ .root)
    (hroom : path.size ≤ img.recordCount) : img.Climbs d (path.push p) (img.parentOf? p) where
  known q hq := hfit.knows_owner ⟨hp, hq⟩
  short := by
    rw [Array.size_push]
    exact Nat.succ_le_succ hroom
  lifts q hq hrooted := by
    obtain ⟨hd, hpath⟩ := h.lifts p rfl (hrooted.owned hq)
    refine ⟨hd, fun e he => ?_⟩
    rcases Array.mem_push.mp he with he | rfl
    · exact hpath e he
    · exact hrooted.owned hq
  leads hd := by
    obtain ⟨_, hp', hrooted, hleads⟩ := h.leads hd
    obtain rfl := Option.some.inj hp'
    have hacyclic := hrooted.not_transGen
    cases hrooted with
    | root => exact absurd rfl hp
    | @owned _ q hq hrooted => exact ⟨q, hq, hrooted, hleads.push hacyclic ⟨hp, hq⟩⟩

theorem Climbs.size_le (h : img.Climbs d path next) (hd : img.Rooted d) :
    path.size ≤ img.recordCount := by
  obtain ⟨_, _, _, hleads⟩ := h.leads hd
  exact hleads.size_le

/-- A loop is among those of all kinds, and has accepted all that came before. -/
structure OwnerLoop.Fits (img : Image) (loop : OwnerLoop) : Prop where
  split : ∃ done, DeclKind.all = done ++ loop.kind :: loop.later
  before : img.RootedBefore loop.kind loop.index

/-- What holds at each point of the pass. -/
inductive OwnerPoint.Stands (img : Image) : OwnerPoint → Prop
  | kinds {left done} (split : DeclKind.all = done ++ left)
      (rooted : ∀ k ∈ done, ∀ i < (img.arena (.decl k)).size, img.Rooted ⟨k, .ofNat i⟩) :
      Stands img (.kinds left)
  | record {loop : OwnerLoop} (fits : loop.Fits img) (drained : loop.path = #[]) :
      Stands img (.record loop)
  | owner {loop : OwnerLoop} {next} (fits : loop.Fits img)
      (held : loop.index < (img.arena (.decl loop.kind)).size)
      (climbs : img.Climbs loop.decl loop.path next) : Stands img (.owner loop next)
  | finished (rooted : ∀ k, ∀ i < (img.arena (.decl k)).size, img.Rooted ⟨k, .ofNat i⟩) :
      Stands img (.stopped (.ok (.ok ())))
  | refused {k i} (first : img.FirstStray k i) :
      Stands img (.stopped (.ok (.error (.parentCycle k i))))
  | overflowed {k i} (held : i < (img.arena (.decl k)).size) (large : UInt32.size ≤ i) :
      Stands img (.stopped (.error (.indexTooLarge i)))

structure OwnerPass.Stands (img : Image) (s : OwnerPass) : Prop where
  memo : img.Remembered s.memo
  point : s.point.Stands img

theorem idxOf_lt_iff {k k' : DeclKind} {done later : List DeclKind}
    (hsplit : DeclKind.all = done ++ k :: later) :
    DeclKind.all.idxOf k' < DeclKind.all.idxOf k ↔ k' ∈ done := by
  have hnodup : DeclKind.all.Nodup := by decide
  rw [hsplit, List.nodup_middle, List.nodup_cons] at hnodup
  have hnew : k ∉ done := fun hmem => hnodup.1 (List.mem_append_left _ hmem)
  rw [hsplit, List.idxOf_append_of_notMem hnew, List.idxOf_cons_self, Nat.add_zero]
  by_cases hmem : k' ∈ done
  · rw [List.idxOf_append_of_mem hmem]
    exact iff_of_true (List.idxOf_lt_length_of_mem hmem) hmem
  · rw [List.idxOf_append_of_notMem hmem]
    exact iff_of_false (Nat.not_lt.mpr (Nat.le_add_right _ _)) hmem

theorem OwnerMove.stands (hfit : img.OwnersFit) (h : img.OwnerMove s t) (hs : s.Stands img) :
    t.Stands img := by
  obtain ⟨hmemo, hpoint⟩ := hs
  cases h with
  | finish =>
    cases hpoint with
    | kinds split rooted =>
      rw [List.append_nil] at split
      exact ⟨hmemo, .finished fun k => rooted k (split ▸ k.mem_all)⟩
  | enter =>
    cases hpoint with
    | kinds split rooted =>
      refine ⟨hmemo, .record ⟨⟨_, split⟩, fun k j hj hturn => ?_⟩ rfl⟩
      rcases turn_lt_iff.mp hturn with hlt | ⟨_, hlt⟩
      · exact rooted k ((idxOf_lt_iff split).mp hlt) j hj
      · exact absurd hlt (Nat.not_lt_zero j)
  | @take memo loop held =>
    cases hpoint with
    | record fits drained =>
      have hindex : loop.decl.index ≤ loop.index := index_ofNat_le
      have hknown : img.Knows loop.decl := .inr (Nat.lt_of_le_of_lt hindex held)
      exact ⟨hmemo, .owner fits held (drained ▸ .start hknown)⟩
  | overflow held large => exact ⟨hmemo, .overflowed held large⟩
  | @leave memo loop through =>
    cases hpoint with
    | record fits =>
      obtain ⟨done, hsplit⟩ := fits.split
      have hleft : DeclKind.all = (done ++ [loop.kind]) ++ loop.later := by simpa using hsplit
      refine ⟨hmemo, .kinds hleft fun k hk i hi => fits.before k i hi (turn_lt_iff.mpr ?_)⟩
      rcases List.mem_append.mp hk with hk | hk
      · exact .inl ((idxOf_lt_iff hsplit).mpr hk)
      · obtain rfl := List.mem_singleton.mp hk
        exact .inr ⟨rfl, Nat.lt_of_lt_of_le hi through⟩
  | @accept memo d loop known =>
    cases hpoint with
    | owner fits held climbs =>
      obtain ⟨hdecl, hpath⟩ := climbs.lifts d rfl (hmemo.sound d known)
      exact ⟨hmemo.insertMany hpath, .record ⟨fits.split, fits.before.succ hdecl⟩ rfl⟩
  | @climb memo d r loop new room read =>
    cases hpoint with
    | owner fits held climbs =>
      -- The root is never read: it is remembered from the start.
      have hne : d ≠ .root := fun e => new (e ▸ hmemo.root)
      obtain ⟨record, hrecord, hparent⟩ := ref_of_knows (climbs.known d rfl)
      obtain rfl := Except.ok.inj (hrecord.symm.trans read)
      refine ⟨hmemo, .owner ⟨fits.split, fits.before⟩ held ?_⟩
      exact hparent ▸ climbs.push hfit hne room
  | dangle new read =>
    cases hpoint with
    | owner fits held climbs =>
      obtain ⟨record, hrecord, _⟩ := ref_of_knows (climbs.known _ rfl)
      exact nomatch hrecord.symm.trans read
  | refuse stuck =>
    cases hpoint with
    | owner fits held climbs =>
      refine ⟨hmemo, .refused ⟨held, fun hrooted => ?_, fits.before⟩⟩
      obtain ⟨p, hp, _, hleads⟩ := climbs.leads hrooted
      exact Nat.not_lt.mpr hleads.size_le (stuck p hp)

/-! ## The whole pass -/

theorem ownerPass_succ (img : Image) (n : Nat) :
    img.ownerPass (n + 1) = img.ownerStep (img.ownerPass n) :=
  Function.iterate_succ_apply' _ _ _

theorem stands_ownerPass (hfit : img.OwnersFit) (n : Nat) : (img.ownerPass n).Stands img := by
  induction n with
  | zero =>
    have hstart : (OwnerPoint.kinds DeclKind.all).Stands img :=
      .kinds (List.nil_append _).symm fun _ hk => absurd hk List.not_mem_nil
    exact ⟨remembered_start img, hstart⟩
  | succ n ih =>
    rw [ownerPass_succ]
    rcases img.stopped_or_move (img.ownerPass n) with ⟨answer, hanswer⟩ | hmove
    · rwa [ownerStep_stopped hanswer]
    · exact hmove.stands hfit ih

/-- The pass stops within its limit of steps, and stays there. -/
theorem exists_ownerPass_stopped (img : Image) :
    ∃ answer, ∀ n, img.stepLimit ≤ n → (img.ownerPass n).point = .stopped answer := by
  let start : OwnerPass := ⟨.ofList [.root], .kinds DeclKind.all⟩
  have hsteps : img.stepsLeft start.point ≤ img.stepLimit := img.stepsFor_all_le
  obtain ⟨answer, hanswer⟩ := exists_answer hsteps
  refine ⟨answer, fun n hn => ?_⟩
  obtain ⟨rest, rfl⟩ := Nat.exists_eq_add_of_le' hn
  rw [ownerPass, Function.iterate_add_apply, Function.iterate_fixed (ownerStep_stopped hanswer)]
  exact hanswer

/-- The answer of the pass is that of `checkChains`, unless there are more records of a kind
than ids. -/
theorem OwnerPoint.Stands.answer_eq {answer : Contract (Except ImageFault Unit)}
    (h : (OwnerPoint.stopped answer).Stands img) :
    answer = .ok img.checkChains ∨ ∃ k i, i < (img.arena (.decl k)).size ∧ UInt32.size ≤ i ∧
      answer = .error (.indexTooLarge i) := by
  cases h with
  | finished rooted => exact .inl (congrArg _ (checkChains_eq_ok_iff.mpr rooted).symm)
  | refused first =>
    exact .inl (congrArg _ (checkChains_eq_error_iff.mpr ⟨_, _, rfl, first⟩).symm)
  | overflowed held large => exact .inr ⟨_, _, held, large, rfl⟩

/-- What the pass over the chains of owners does with an image. -/
structure ReportsFirstStray (img : Image) : Prop where
  /-- Only what lies under the root is ever remembered. -/
  memo : ∀ n, ∀ d ∈ (img.ownerPass n).memo, img.Rooted d
  /-- Each record is taken up with an empty path. -/
  drained : ∀ n loop, (img.ownerPass n).point = .record loop → loop.path = #[]
  /-- The path stays short, and within the limit for a declaration under the root. -/
  path : ∀ n loop next, (img.ownerPass n).point = .owner loop next →
    loop.path.size ≤ img.recordCount + 1 ∧
      (img.Rooted loop.decl → loop.path.size ≤ img.recordCount)
  /-- The pass ends with the answer that validation goes on with.  Only a record that no id can
  be made for keeps it from one. -/
  ends : ∃ answer, (∀ n, img.stepLimit ≤ n → (img.ownerPass n).point = .stopped answer) ∧
    (answer = .ok img.checkChains ∨ ∃ k i, i < (img.arena (.decl k)).size ∧ UInt32.size ≤ i ∧
      answer = .error (.indexTooLarge i))
  refused_iff : ∀ fault, img.checkChains = .error fault ↔
    ∃ k i, fault = .parentCycle k i ∧ img.FirstStray k i
  accepted_iff : img.checkChains = .ok () ↔
    ∀ k i, i < (img.arena (.decl k)).size → img.Rooted ⟨k, .ofNat i⟩
  /-- A stray lies on a cycle or leads to one. -/
  stray_iff : ∀ d, img.Holds d.id → (¬ img.Rooted d ↔ img.RunsInCircles d)

/-- Of an image whose arenas are accepted, the pass over the chains of owners reports the first
declaration that they do not lead to the root from, if there is one. -/
theorem first_stray_reported (img : Image) (harenas : Arena.all.forM img.checkArena = .ok ()) :
    img.ReportsFirstStray := by
  have hfit := ownersFit_of_checkArenas harenas
  have hstands := stands_ownerPass hfit
  refine ⟨fun n => (hstands n).memo.sound, fun n loop hpoint => ?_, fun n loop next hpoint => ?_,
    ?_, fun _ => checkChains_eq_error_iff, checkChains_eq_ok_iff,
    fun d hd => hfit.not_rooted_iff hd⟩
  · have hrecord := (hstands n).point
    rw [hpoint] at hrecord
    cases hrecord with
    | record _ drained => exact drained
  · have howner := (hstands n).point
    rw [hpoint] at howner
    cases howner with
    | owner _ _ climbs => exact ⟨climbs.short, climbs.size_le⟩
  · obtain ⟨answer, hstopped⟩ := img.exists_ownerPass_stopped
    have hanswer := (hstands img.stepLimit).point
    rw [hstopped _ le_rfl] at hanswer
    exact ⟨answer, hstopped, hanswer.answer_eq⟩

/-- A namespace without members, of an owner. -/
def bareNamespace (owner : DeclId) : Record .namespaces :=
  ⟨⟨.decl .nameSpace, .empty, some owner⟩, {}⟩

/-- Two namespaces, the second of which owns both. -/
def leaningNamespace : Image :=
  { empty .full with
    records := (empty .full).records.modify .namespaces fun _ =>
      #[bareNamespace ⟨.nameSpace, 1⟩, bareNamespace ⟨.nameSpace, 1⟩] }

theorem recordFits_leaningNamespace {r : Record .namespaces}
    (hr : r ∈ leaningNamespace.arena .namespaces) : leaningNamespace.RecordFits r := by
  have hr : r ∈ #[bareNamespace ⟨.nameSpace, 1⟩, bareNamespace ⟨.nameSpace, 1⟩] := hr
  obtain rfl : r = bareNamespace ⟨.nameSpace, 1⟩ := by simpa using hr
  refine ⟨rfl, ⟨⟨.nameSpace, 1⟩, rfl, .inr Nat.one_lt_two, rfl⟩, ?_⟩
  show (TextSpan.empty.resolve? "").isSome
  rw [TextSpan.resolve?_empty]
  rfl

theorem checkArenas_leaningNamespace :
    Arena.all.forM leaningNamespace.checkArena = .ok () := by
  refine checkArenas_eq_ok_iff.mpr
    ⟨fun a r hr => ?_, fun r hr => absurd hr (Array.not_mem_empty r), fun a => ?_⟩
  · cases a with
    | attributes => exact absurd hr (Array.not_mem_empty r)
    | decl k =>
      cases k with
      | nameSpace => exact recordFits_leaningNamespace hr
      | _ => exact absurd hr (Array.not_mem_empty r)
  · cases a with
    | attributes => exact .nil
    | decl k =>
      cases k with
      | nameSpace => decide
      | _ => exact .nil

/-- The first namespace is reported, which only leads to the cycle. -/
theorem first_stray_reported_leaningNamespace :
    Arena.all.forM leaningNamespace.checkArena = .ok () ∧
    leaningNamespace.checkChains = .error (.parentCycle .nameSpace 0) ∧
    leaningNamespace.OwnedBy ⟨.nameSpace, 0⟩ ⟨.nameSpace, 1⟩ ∧
    leaningNamespace.OwnedBy ⟨.nameSpace, 1⟩ ⟨.nameSpace, 1⟩ := by
  have hreports := first_stray_reported _ checkArenas_leaningNamespace
  have hlean : leaningNamespace.OwnedBy ⟨.nameSpace, 0⟩ ⟨.nameSpace, 1⟩ := ⟨by decide, rfl⟩
  have hself : leaningNamespace.OwnedBy ⟨.nameSpace, 1⟩ ⟨.nameSpace, 1⟩ := ⟨by decide, rfl⟩
  have hheld : leaningNamespace.Holds (⟨.nameSpace, 0⟩ : DeclId).id := Nat.two_pos
  have hstray := (hreports.stray_iff _ hheld).mpr ⟨_, .single hlean, .single hself⟩
  have hbefore : leaningNamespace.RootedBefore .nameSpace 0 := by
    intro k j hj hturn
    rcases turn_lt_iff.mp hturn with hkind | ⟨_, hlt⟩
    · cases k with
      | nameSpace => exact absurd hkind (Nat.lt_irrefl _)
      | _ => exact absurd hj (Nat.not_lt_zero j)
    · exact absurd hlt (Nat.not_lt_zero j)
  have hfirst : leaningNamespace.FirstStray .nameSpace 0 := ⟨hheld, hstray, hbefore⟩
  have hrefused := (hreports.refused_iff _).mpr ⟨_, _, rfl, hfirst⟩
  exact ⟨checkArenas_leaningNamespace, hrefused, hlean, hself⟩

end Image
end TypeAtlas
