/-
Validation that trusts what it has tested.

`Image.validate` reads every record through `lookup`, which reports an id that
names none.  A validator that has tested an id may as well read the record under
contract, as a query does, and breaks off where it has not tested enough.
`Image.validateTrusting` is that validator: each id is tested once, by the pass
that comes to it first, and later passes read through `ref`, `ids` and `hashAt`.
It never breaks off, and answers what `Image.validate` answers.
-/
import TypeAtlas.Image.Query
import TypeAtlas.Proofs.Validity.Bases
import TypeAtlas.Proofs.Validity.Owners

namespace TypeAtlas

/-- An answer, a fault that is reported, or a breach by the program itself. -/
abbrev Trusting (ε α : Type) : Type := ExceptT ε (Except Violation) α

namespace Trusting

variable {ε α β : Type}

/-- A test of what was given. -/
def test (x : Except ε α) : Trusting ε α := ExceptT.mk (.ok x)

/-- A reading that an earlier test has to allow. -/
def read (x : Contract α) : Trusting ε α := ExceptT.lift x

theorem test_bind {x : Except ε α} {f : α → Trusting ε β} {g : α → Except ε β}
    (h : ∀ a, x = .ok a → f a = test (g a)) : (test x >>= f) = test (x >>= g) := by
  cases x with
  | error e => rfl
  | ok a => exact h a rfl

theorem read_bind {x : Contract α} {a : α} (hx : x = .ok a) (f : α → Trusting ε β) :
    (read x >>= f) = f a := by
  rw [hx]
  rfl

theorem forM_test {xs : List α} {f : α → Trusting ε Unit} {g : α → Except ε Unit}
    (h : ∀ x ∈ xs, f x = test (g x)) : xs.forM f = test (xs.forM g) := by
  induction xs with
  | nil => rfl
  | cons x xs ih =>
    show (f x >>= fun _ => xs.forM f) = test (g x >>= fun _ => xs.forM g)
    rw [h x List.mem_cons_self]
    exact test_bind fun _ _ => ih fun y hy => h y (List.mem_cons_of_mem x hy)

/-- A discarded pass is a pass of discarded answers. -/
theorem forM_discard {xs : List α} {f : α → Except ε β} :
    xs.forM (fun x => do let _ ← f x) = (do let _ ← xs.mapM f : Except ε Unit) := by
  induction xs with
  | nil => rfl
  | cons x xs ih =>
    show ((f x >>= fun _ => pure ()) >>= fun _ => xs.forM fun x => do let _ ← f x) = _
    rw [ih, List.mapM_cons]
    simp only [bind_assoc, pure_bind]

/-- Elements are tested in one pass and read in a second one, instead of both at
once. -/
theorem forM_bind_read {γ : Type} {xs : List α} {check : α → Trusting ε Unit}
    {f : α → Except ε β} {g : α → Contract β} {k : List β → Trusting ε γ}
    (hcheck : ∀ x ∈ xs, check x = test (do let _ ← f x)) (hread : ∀ x y, f x = .ok y → g x = .ok y) :
    (do xs.forM check; let ys ← read (xs.mapM g); k ys) = test (xs.mapM f) >>= k := by
  rw [forM_test hcheck, forM_discard]
  cases hys : xs.mapM f with
  | error e => rfl
  | ok ys =>
    have hmap : xs.mapM g = .ok ys :=
      Check.mapM_eq_ok_iff.mpr ((Check.mapM_eq_ok_iff.mp hys).imp hread)
    exact read_bind hmap k

end Trusting

namespace Image

open Check Trusting

section passes

variable (img : Image)

/-! ## The passes -/

def trustMember (owner : DeclId) {b : Arena} (id : Id b) : Trusting ImageFault Unit := do
  let _ ← test (img.lookup id)
  let member ← read (img.ref id)
  test (ensure (member.record.parent == some owner) (.foreignMember owner b id.index))

def trustList (owner : DeclId) {b : Arena} (list : IdList b) : Trusting ImageFault Unit :=
  match list.slice? (img.pool b) with
  | none => test (.error (.listOutOfPool b list.start list.len (img.pool b).size))
  | some ids => do
    ids.toList.forM (img.trustMember owner)
    let hashes ← read (ids.toList.mapM img.hashAt)
    test (ensureSorted (.arena b) hashes)

def trustReturn (owner : DeclId) : {a : Arena} → Record a → Trusting ImageFault Unit
  | .functions, r =>
    match FunctionBody.returnField r.body with
    | none => test (.ok ())
    | some id => do
      let _ ← test (img.lookup id)
      let listed ← read (img.ids (FunctionBody.parameters r.body))
      let field ← read (img.ref id)
      test (ensure (field.record.parent == some owner && !listed.contains id)
        (.foreignReturn owner.index))
  | _, _ => test (.ok ())

def trustMembers (owner : DeclId) (r : Record owner.arena) : Trusting ImageFault Unit := do
  test (r.links.forM img.checkLink)
  owner.kind.memberArenas.forM fun b => img.trustList owner (r.members b)
  img.trustReturn owner r

/-- The id of each record has to fit. -/
def trustMembersOf (k : DeclKind) : Trusting ImageFault Unit :=
  (img.arena (.decl k)).toList.zipIdx.forM fun entry => do
    let id : Id (.decl k) ← read (Id.ofIndexChecked entry.2)
    img.trustMembers id.decl entry.1

def trustClimb (img : Image) (limit : Nat) (rooted : Std.HashSet DeclId) (path : Array DeclId)
    (next : Option DeclId) : Contract (Option DeclId × Array DeclId) :=
  match next with
  | none => .ok (none, path)
  | some d =>
    if rooted.contains d || limit < path.size then .ok (some d, path)
    else do
      let r ← img.ref d.id
      img.trustClimb limit rooted (path.push d) r.record.parent
termination_by limit + 1 - path.size
decreasing_by
  simp only [Array.size_push]
  have := ‹¬(rooted.contains d || decide (limit < path.size)) = true›
  simp only [Bool.or_eq_true, decide_eq_true_eq, not_or] at this
  omega

def trustChain (limit : Nat) (rooted : Std.HashSet DeclId) (d : DeclId) :
    Trusting ImageFault (Std.HashSet DeclId) := do
  match ← read (img.trustClimb limit rooted #[] (some d)) with
  | (some last, path) =>
    if rooted.contains last then test (.ok (rooted.insertMany path))
    else test (.error (.parentCycle d.kind d.index))
  | (none, _) => test (.error (.parentCycle d.kind d.index))

def trustChains : Trusting ImageFault Unit := do
  let _ ← img.declarations.foldlM (img.trustChain img.recordCount) (Std.HashSet.ofList [.root])

/-- The class at an index that has to be there. -/
def classAt (id : Id .classes) : Contract (Record .classes) :=
  match (img.arena .classes)[id.index]? with
  | some r => .ok r
  | none => .error (.arrayIndex id.index (img.arena .classes).size)

def trustDescend (img : Image) (index steps : Nat) (next : Option (Id .classes)) :
    Trusting ImageFault Unit :=
  match next with
  | none => test (.ok ())
  | some base =>
    if base.index = index ∨ (img.arena .classes).size ≤ steps then
      test (.error (.inheritanceCycle index))
    else do
      let c ← read (img.classAt base)
      img.trustDescend index (steps + 1) (ClassBody.base c.body)
termination_by (img.arena .classes).size - steps
decreasing_by omega

def trustInheritance : Trusting ImageFault Unit :=
  (img.arena .classes).toList.zipIdx.forM fun entry =>
    img.trustDescend entry.2 0 (ClassBody.base entry.1.body)

def trustTypeIndex : Trusting ImageFault Unit := do
  img.typeIndex.toList.forM fun t => test (img.checkLink t.decl)
  let hashes ← read (img.typeIndex.toList.mapM img.typeHashAt)
  test (ensureSorted .typeIndex hashes)

def validateTrusting : Trusting ImageFault Unit := do
  test img.checkProfile
  test img.checkRoot
  test (Arena.all.forM img.checkArena)
  img.trustMembersOf .nameSpace
  img.trustMembers .root img.root
  memberOrder.forM img.trustMembersOf
  img.trustChains
  img.trustInheritance
  img.trustTypeIndex
  test img.checkNames

end passes

variable {img : Image}

/-! ## Lists and links -/

theorem ref_of_lookup (haddr : img.Addressable) {a : Arena} {id : Id a} {r : Record a}
    (h : img.lookup id = .ok r) : img.ref id = .ok ⟨id, r⟩ := by
  have hr := lookup_eq_ok_iff.mp h
  rw [ref, record?_of_holds haddr (holds_of_getElem? hr), hr]

theorem trustMember_eq (haddr : img.Addressable) (owner : DeclId) {b : Arena} (id : Id b) :
    img.trustMember owner id = test (do let _ ← img.checkMember owner id) := by
  rw [trustMember, checkMember, bind_assoc]
  refine test_bind fun r hr => ?_
  rw [read_bind (ref_of_lookup haddr hr)]
  show test (ensure (r.parent == some owner) _) =
    test ((ensure (r.parent == some owner) _ >>= fun _ => pure r.hash) >>= fun _ => pure ())
  cases r.parent == some owner <;> rfl

theorem hashAt_of_checkMember (haddr : img.Addressable) {owner : DeclId} {b : Arena} {id : Id b}
    {hash : UInt32} (h : img.checkMember owner id = .ok hash) : img.hashAt id = .ok hash := by
  rw [checkMember] at h
  obtain ⟨r, hr, h⟩ := bind_eq_ok_iff.mp h
  obtain ⟨_, h⟩ := then_eq_ok_iff.mp h
  rw [hashAt, ref_of_lookup haddr hr]
  exact congrArg Except.ok (Except.ok.inj h)

theorem trustList_eq (haddr : img.Addressable) (owner : DeclId) {b : Arena} (list : IdList b) :
    img.trustList owner list = test (img.checkList owner list) := by
  rw [trustList, checkList]
  cases list.slice? (img.pool b) with
  | none => rfl
  | some ids =>
    exact (forM_bind_read (fun id _ => trustMember_eq haddr owner id)
      fun _ _ => hashAt_of_checkMember haddr).trans (test_bind fun _ _ => rfl)

/-- The parameters of a function are cut from the pool after their list was. -/
theorem trustReturn_eq (haddr : img.Addressable) (owner : DeclId) {r : Record .functions}
    (h : (r.members .fields).stop ≤ (img.pool .fields).size) :
    img.trustReturn owner r = test (img.checkReturn owner r) := by
  obtain ⟨parameters, hslice⟩ :
      ∃ ids, (FunctionBody.parameters r.body).slice? (img.pool .fields) = some ids :=
    ⟨_, if_pos h⟩
  show (match FunctionBody.returnField r.body with | none => _ | some id => _) =
    test (match FunctionBody.returnField r.body with | none => _ | some id => _)
  cases FunctionBody.returnField r.body with
  | none => rfl
  | some id =>
    refine test_bind fun field hfield => ?_
    have hids : img.ids (FunctionBody.parameters r.body) = .ok parameters := by
      rw [ids, hslice]
    rw [read_bind hids, read_bind (ref_of_lookup haddr hfield), hslice]
    rfl

theorem trustMembers_eq (haddr : img.Addressable) (owner : DeclId) (r : Record owner.arena) :
    img.trustMembers owner r = test (img.checkMembers owner r) := by
  refine test_bind fun _ _ => ?_
  rw [forM_test fun b _ => img.trustList_eq haddr owner (r.members b)]
  refine test_bind fun _ hlists => ?_
  obtain ⟨k, raw⟩ := owner
  cases k with
  | function =>
    have hmem : Arena.fields ∈ DeclKind.function.memberArenas := by decide
    exact trustReturn_eq haddr _ (checkList_eq_ok_iff.mp (forM_eq_ok_iff.mp hlists _ hmem)).inPool
  | _ => rfl

theorem trustMembersOf_eq (haddr : img.Addressable) (k : DeclKind) :
    img.trustMembersOf k = test (img.checkMembersOf k) := by
  refine forM_test fun entry hentry => ?_
  have hlt : entry.2 < (img.arena (.decl k)).size := by
    have := List.snd_lt_of_mem_zipIdx hentry
    simpa using this
  have hid : (Id.ofIndexChecked entry.2 : Contract (Id (.decl k))) = .ok (.ofIndex entry.2) :=
    if_pos (Nat.lt_trans hlt (haddr _))
  rw [read_bind hid]
  exact img.trustMembers_eq haddr _ _

/-! ## Chains -/

/-- The owner of a known declaration is known. -/
def OwnersKnown (img : Image) : Prop :=
  ∀ d p, img.Knows d → img.parentOf? d = some p → img.Knows p

theorem parentOf?_root (hroot : img.root.parent = none) : img.parentOf? .root = none :=
  hroot

theorem ref_of_knows {d : DeclId} (hd : img.Knows d) :
    ∃ r, img.ref d.id = .ok ⟨d.id, r⟩ ∧ img.parentOf? d = r.parent := by
  have hrecord : ∃ r, img.record? d.id = some r := by
    by_cases hroot : d = .root
    · subst hroot
      exact ⟨img.root, rfl⟩
    · have hget := getElem?_eq_some_of_holds (hd.resolve_left hroot)
      exact ⟨_, (img.record?_of_ne_root (show d.id.decl ≠ .root from hroot)).trans hget⟩
  obtain ⟨r, hr⟩ := hrecord
  refine ⟨r, ?_, ?_⟩
  · rw [ref, hr]
  · rw [parentOf?, header?, hr]
    rfl

theorem ownersKnown_of_records (hroot : img.root.parent = none) (hrecords : img.OwnersFit) :
    img.OwnersKnown := by
  intro d p _ hp
  by_cases hd : d = .root
  · rw [hd, parentOf?_root hroot] at hp
    cases hp
  · exact hrecords.knows_owner ⟨hd, hp⟩

theorem trustClimb_eq (howners : img.OwnersKnown) {limit : Nat}
    {rooted : Std.HashSet DeclId} {path : Array DeclId} {next : Option DeclId}
    (hnext : ∀ d, next = some d → img.Knows d) :
    img.trustClimb limit rooted path next = .ok (img.climb limit rooted path next) := by
  fun_induction climb img limit rooted path next with
  | case1 path => rw [trustClimb]
  | case2 path d hstop => rw [trustClimb, if_pos hstop]
  | case3 path d hgo ih =>
    obtain ⟨r, hr, hparent⟩ := ref_of_knows (hnext d rfl)
    rw [trustClimb, if_neg hgo, hr]
    rw [hparent] at ih ⊢
    exact ih fun p hp => howners d p (hnext d rfl) (hparent.trans hp)

theorem trustChain_eq (howners : img.OwnersKnown) {limit : Nat}
    {rooted : Std.HashSet DeclId} {d : DeclId} (hd : img.Knows d) :
    img.trustChain limit rooted d = test (img.checkChain limit rooted d) := by
  have hclimb : img.trustClimb limit rooted #[] (some d) =
      .ok (img.climb limit rooted #[] (some d)) :=
    trustClimb_eq howners fun _ he => Option.some.inj he ▸ hd
  rw [trustChain, checkChain, read_bind hclimb]
  obtain ⟨last, path⟩ := img.climb limit rooted #[] (some d)
  cases last with
  | none => rfl
  | some last =>
    show (if rooted.contains last then _ else _) = test (if rooted.contains last then _ else _)
    split <;> rfl

theorem foldlM_trustChain_eq (howners : img.OwnersKnown) {limit : Nat}
    {ds : List DeclId} (hds : ∀ d ∈ ds, img.Knows d) (rooted : Std.HashSet DeclId) :
    ds.foldlM (img.trustChain limit) rooted = test (ds.foldlM (img.checkChain limit) rooted) := by
  induction ds generalizing rooted with
  | nil => rfl
  | cons d ds ih =>
    rw [List.foldlM_cons, List.foldlM_cons, trustChain_eq howners (hds d List.mem_cons_self)]
    exact test_bind fun rooted' _ => ih (fun e he => hds e (List.mem_cons_of_mem d he)) rooted'

theorem knows_of_mem_declarations (haddr : img.Addressable) {d : DeclId}
    (hd : d ∈ img.declarations) : img.Knows d := by
  obtain ⟨k, i, hi, rfl⟩ := mem_declarations.mp hd
  refine Or.inr ?_
  show (Id.ofIndex i : Id (.decl k)).index < _
  rw [Id.index_ofIndex (Nat.lt_trans hi (haddr _))]
  exact hi

theorem trustChains_eq (haddr : img.Addressable) (howners : img.OwnersKnown) :
    img.trustChains = test img.checkChains := by
  rw [trustChains, checkChains,
    foldlM_trustChain_eq howners fun _ => knows_of_mem_declarations haddr]
  exact test_bind fun _ _ => rfl

theorem trustDescend_eq (hbases : img.BasesHold) {index steps : Nat}
    {next : Option (Id .classes)} (hnext : ∀ b, next = some b → img.Holds b) :
    img.trustDescend index steps next = test (img.descend index steps next) := by
  fun_induction descend img index steps next with
  | case1 => rw [trustDescend]
  | case2 steps base hstop => rw [trustDescend, if_pos hstop]
  | case3 steps base hgo ih =>
    obtain ⟨c, hc⟩ : ∃ c, (img.arena .classes)[base.index]? = some c :=
      ⟨_, getElem?_eq_some_of_holds (hnext base rfl)⟩
    have hat : img.classAt base = .ok c := by
      rw [classAt, hc]
    rw [trustDescend, if_neg hgo, read_bind hat, lookup_eq_ok_iff.mpr hc]
    exact ih _ fun b hb => hbases base b ⟨_, hc, hb⟩

theorem trustInheritance_eq (haddr : img.Addressable) (hbases : img.BasesHold) :
    img.trustInheritance = test img.checkInheritance := by
  refine forM_test fun entry hentry => trustDescend_eq hbases fun b hb => ?_
  have hr : (img.arena .classes)[entry.2]? = some entry.1 := by
    simpa using List.mem_zipIdx_iff_getElem?.mp hentry
  exact hbases _ b (derives_ofIndex haddr hr hb)

/-! ## Type index -/

theorem typeHashAt_of_lookup (haddr : img.Addressable) {t : TypeId} {r : Record t.decl.arena}
    (h : img.lookup t.decl.id = .ok r) : img.typeHashAt t = .ok r.hash := by
  have href : img.ref t.id = .ok ⟨t.id, r⟩ := ref_of_lookup haddr h
  rw [typeHashAt, resolveType, href]
  rfl

theorem trustTypeIndex_eq (haddr : img.Addressable) :
    img.trustTypeIndex = test img.checkTypeIndex := by
  refine (forM_bind_read (fun t _ => ?_) fun t hash h => ?_).trans (test_bind fun _ _ => rfl)
  · rw [bind_assoc]
    rfl
  · obtain ⟨r, hr, hhash⟩ := bind_eq_ok_iff.mp h
    rw [typeHashAt_of_lookup haddr hr]
    exact congrArg Except.ok (Except.ok.inj hhash)

/-! ## The whole -/

theorem basesHold_of_members (hmembers : ∀ i r, (img.arena .classes)[i]? = some r →
    img.MembersFit ⟨.classType, .ofNat i⟩ r) : img.BasesHold := by
  rintro c b ⟨r, hr, hb⟩
  exact (hmembers c.index r hr).links b.decl (ClassBody.mem_links.mpr (.inl ⟨b, hb, rfl⟩))

/-- A validator that trusts what it has tested breaches nothing, and its answer is
that of one that reports every id. -/
theorem validateTrusting_eq (haddr : img.Addressable) :
    img.validateTrusting = test img.validate := by
  refine test_bind fun _ _ => test_bind fun _ hroot => test_bind fun _ harenas => ?_
  rw [trustMembersOf_eq haddr]
  refine test_bind fun _ _ => ?_
  have hrootMembers : img.trustMembers .root img.root = test (img.checkMembers .root img.root) :=
    trustMembers_eq haddr .root img.root
  rw [hrootMembers]
  refine test_bind fun _ _ => ?_
  rw [forM_test fun k _ => trustMembersOf_eq haddr k]
  refine test_bind fun _ hmembers => ?_
  have howners : img.OwnersKnown :=
    ownersKnown_of_records (checkRoot_eq_ok_iff.mp hroot).2.1
      (checkArenas_eq_ok_iff.mp harenas).1
  have hclasses := forM_eq_ok_iff.mp hmembers .classType List.mem_cons_self
  have hbases := basesHold_of_members (checkMembersOf_eq_ok_iff.mp hclasses)
  rw [trustChains_eq haddr howners]
  refine test_bind fun _ _ => ?_
  rw [trustInheritance_eq haddr hbases]
  refine test_bind fun _ _ => ?_
  rw [trustTypeIndex_eq haddr]
  exact test_bind fun _ _ => rfl

end Image
end TypeAtlas
