/-
What navigation comes to.

`Image.Reached` are the records that lookups by hash and steps from record to
record can come to.  A step answers only what it has looked up, so whatever is
reached is genuine; that every step is answered is another matter.
-/
import TypeAtlas.Proofs.Query.Casts
import TypeAtlas.Proofs.Query.Genuine

namespace TypeAtlas

namespace Image

open Check

variable {img : Image} {a : Arena}

/-- A record that a caller can come to who starts at the root namespace, at the
id of a record or at what a lookup found. -/
inductive Reached (img : Image) : {a : Arena} → Ref a → Prop
  | root : Reached img img.rootRef
  | id {a : Arena} {id : Id a} {r : Ref a} : img.Holds id → img.ref id = .ok r → Reached img r
  | found {a : Arena} {hash : UInt32} {r : Ref a} : img.find a hash = some r → Reached img r
  | type {hash : UInt32} {t : TypeRef} : img.getType hash = .ok (some t) → Reached img t.ref
  | parent {a : Arena} {r : Ref a} {d : DeclRef} :
      Reached img r → img.parentOf r = .ok (some d) → Reached img d.ref
  | member {k : DeclKind} {r : Ref (.decl k)} {b : Arena} {ids : Array (Id b)} {i : Nat} {m : Ref b} :
      Reached img r → img.members r b = .ok ids → ids[i]?.mapM img.ref = .ok (some m) → Reached img m
  | listed {k : DeclKind} {r : Ref (.decl k)} {b : Arena} {ids : Array (Id b)} {rs : List (Ref b)}
      {m : Ref b} :
      Reached img r → img.members r b = .ok ids → img.refs ids = .ok rs → m ∈ rs → Reached img m
  | sought {k : DeclKind} {r : Ref (.decl k)} {b : Arena} {ids : Array (Id b)} {hash : UInt32}
      {m : Ref b} :
      Reached img r → img.members r b = .ok ids → img.findIn ids hash = .ok (some m) → Reached img m
  | base {c b : Ref .classes} : Reached img c → img.baseOf c = .ok (some b) → Reached img b
  | ancestor {c b : Ref .classes} {limit : Nat} {bs : List (Ref .classes)} :
      Reached img c → img.firstBases c limit = .ok bs → b ∈ bs → Reached img b
  | constructor {c : Ref .classes} {f : Ref .functions} :
      Reached img c → img.constructorOf c = .ok (some f) → Reached img f
  | destructor {c : Ref .classes} {f : Ref .functions} :
      Reached img c → img.destructorOf c = .ok (some f) → Reached img f
  | returned {f : Ref .functions} {v : Ref .fields} :
      Reached img f → img.returnOf f = .ok (some v) → Reached img v
  | fieldType {f : Ref .fields} {t : TypeRef} :
      Reached img f → img.typeOf f = .ok (some t) → Reached img t.ref
  | argument {t : Ref .templateTypes} {args : List (TypeRef × Bool)} {arg : TypeRef × Bool} :
      Reached img t → img.argumentsOf t = .ok args → arg ∈ args → Reached img arg.1.ref
  | template {t : Ref .templateTypes} {r : Ref .templates} :
      Reached img t → img.templateOf t = .ok (some r) → Reached img r

theorem genuine_of_mapM_ref {o : Option (Id a)} {m : Ref a} (h : o.mapM img.ref = .ok (some m)) :
    img.Genuine m := by
  cases o with
  | none => cases h
  | some id =>
    obtain ⟨r, hr, hm⟩ := bind_eq_ok_iff.mp h
    obtain rfl := Option.some.inj (Except.ok.inj hm)
    exact genuine_of_ref hr

theorem genuine_of_resolve {p : DeclId} {d : DeclRef} (h : img.resolve p = .ok d) :
    img.Genuine d.ref := by
  obtain ⟨r, hr, hd⟩ := bind_eq_ok_iff.mp h
  obtain rfl := Except.ok.inj hd
  exact genuine_of_ref hr

theorem genuine_of_resolveType {p : TypeId} {t : TypeRef} (h : img.resolveType p = .ok t) :
    img.Genuine t.ref := by
  obtain ⟨r, hr, ht⟩ := bind_eq_ok_iff.mp h
  obtain rfl := Except.ok.inj ht
  exact genuine_of_ref hr

theorem genuine_of_mapM_resolveType {o : Option TypeId} {t : TypeRef}
    (h : o.mapM img.resolveType = .ok (some t)) : img.Genuine t.ref := by
  cases o with
  | none => cases h
  | some p =>
    obtain ⟨r, hr, hm⟩ := bind_eq_ok_iff.mp h
    obtain rfl := Option.some.inj (Except.ok.inj hm)
    exact genuine_of_resolveType hr

theorem genuine_of_parentOf {r : Ref a} {d : DeclRef} (h : img.parentOf r = .ok (some d)) :
    img.Genuine d.ref := by
  rw [parentOf] at h
  cases hp : r.record.parent with
  | none =>
    rw [hp] at h
    cases h
  | some p =>
    rw [hp] at h
    obtain ⟨r, hr, hm⟩ := bind_eq_ok_iff.mp h
    obtain rfl := Option.some.inj (Except.ok.inj hm)
    exact genuine_of_resolve hr

theorem genuine_of_find (haddr : img.Addressable) {hash : UInt32} {r : Ref a}
    (h : img.find a hash = some r) : img.Genuine r := by
  simp only [find, Option.bind_eq_bind, Option.bind_eq_some_iff] at h
  obtain ⟨i, _, record, hget, hr⟩ := h
  obtain rfl := Option.some.inj hr
  have hi : i < (img.arena a).size := (Array.getElem?_eq_some_iff.mp hget).1
  have hindex : (Id.ofIndex i : Id a).index = i := Id.index_ofIndex (Nat.lt_trans hi (haddr a))
  have hholds : img.Holds (Id.ofIndex i : Id a) := by
    rw [Holds, hindex]
    exact hi
  refine ref_eq_ok_iff.mpr ⟨rfl, ?_⟩
  rw [record?_of_holds haddr hholds, hindex]
  exact hget

theorem genuine_of_basesFrom {limit : Nat} {next : Option (Ref .classes)} {bs : List (Ref .classes)}
    (h : img.basesFrom limit next = .ok bs) (hnext : ∀ c ∈ next, img.Genuine c) :
    ∀ b ∈ bs, img.Genuine b := by
  induction limit generalizing next bs with
  | zero =>
    rw [basesFrom] at h
    obtain rfl := Except.ok.inj h
    exact fun _ hb => absurd hb List.not_mem_nil
  | succ limit ih =>
    cases next with
    | none =>
      rw [basesFrom] at h
      obtain rfl := Except.ok.inj h
      exact fun _ hb => absurd hb List.not_mem_nil
    | some c =>
      rw [basesFrom] at h
      obtain ⟨next, hbase, h⟩ := bind_eq_ok_iff.mp h
      obtain ⟨rest, hrest, h⟩ := bind_eq_ok_iff.mp h
      obtain rfl := Except.ok.inj h
      intro b hb
      rcases List.mem_cons.mp hb with rfl | hb
      · exact hnext b rfl
      · refine ih hrest (fun d hd => ?_) b hb
        obtain rfl := hd
        exact genuine_of_mapM_ref hbase

theorem Reached.genuine (haddr : img.Addressable) {r : Ref a} (h : img.Reached r) :
    img.Genuine r := by
  induction h with
  | root => exact img.genuine_root
  | id _ hr => exact genuine_of_ref hr
  | found hr => exact genuine_of_find haddr hr
  | type ht =>
    obtain ⟨found, _, ht⟩ := bind_eq_ok_iff.mp ht
    exact genuine_of_mapM_resolveType ht
  | parent _ hd _ => exact genuine_of_parentOf hd
  | member _ _ hm _ => exact genuine_of_mapM_ref hm
  | listed _ _ hrs hm _ =>
    obtain ⟨id, _, hr⟩ := exists_of_mem_mapM hrs hm
    exact genuine_of_ref hr
  | sought _ _ hm _ =>
    obtain ⟨found, _, hm⟩ := bind_eq_ok_iff.mp hm
    exact genuine_of_mapM_ref hm
  | base _ hb _ => exact genuine_of_mapM_ref hb
  | ancestor _ hbs hb _ =>
    obtain ⟨next, hnext, hbs⟩ := bind_eq_ok_iff.mp hbs
    refine genuine_of_basesFrom hbs (fun d hd => ?_) _ hb
    obtain rfl := hd
    exact genuine_of_mapM_ref hnext
  | constructor _ hf _ => exact genuine_of_mapM_ref hf
  | destructor _ hf _ => exact genuine_of_mapM_ref hf
  | returned _ hv _ => exact genuine_of_mapM_ref hv
  | fieldType _ ht _ => exact genuine_of_mapM_resolveType ht
  | argument _ hargs harg _ =>
    obtain ⟨slot, _, hslot⟩ := exists_of_mem_mapM hargs harg
    obtain ⟨t, ht, harg⟩ := bind_eq_ok_iff.mp hslot
    obtain rfl := Except.ok.inj harg
    exact genuine_of_resolveType ht
  | template _ hr _ =>
    obtain ⟨p, hp, hr⟩ := bind_eq_ok_iff.mp hr
    obtain ⟨d, hd, hto⟩ := Option.bind_eq_some_iff.mp (Except.ok.inj hr)
    subst hd
    obtain rfl := DeclRef.to?_eq_some_iff.mp hto
    exact genuine_of_parentOf hp

end Image
end TypeAtlas
