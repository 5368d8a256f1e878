/-
Refused calls leave no trace.

What a refused call was given is neither recorded nor interned, so a run goes on as if it
had not been made, and the draft at its end builds the same image.
-/
import TypeAtlas.Draft.Layout
import TypeAtlas.Proofs.Draft.InPlace

namespace TypeAtlas
namespace Draft

/-! ## Runs without the calls that were refused -/

/-- Whether a call was accepted, by the answer to it. -/
def accepted (entry : Call × Except DraftFault Reply) : Bool := entry.2.isOk

/-- A run in which some of the refused calls are not made ends with the same draft, and
every call that is left is answered as before. -/
theorem run_of_sublist {d : Draft} {calls : List Call}
    {rest : List (Call × Except DraftFault Reply)} (hroom : HasRoom (d.run calls).1)
    (hrest : rest.Sublist (calls.zip (d.run calls).1))
    (hkept : rest.filter accepted = (calls.zip (d.run calls).1).filter accepted) :
    d.run (rest.map (·.1)) = (rest.map (·.2), (d.run calls).2) := by
  induction calls generalizing d rest with
  | nil =>
    obtain rfl := List.sublist_nil.mp hrest
    rfl
  | cons c calls ih =>
    cases hcall : d.call c with
    | error e =>
      rw [run_cons_error hcall] at hroom hrest hkept ⊢
      obtain ⟨hfirst, hroom⟩ := List.forall_mem_cons.mp hroom
      have hsame := refused_eq hcall fun what he => hfirst what (congrArg Except.error he)
      rw [hsame] at hroom hrest hkept ⊢
      rw [List.zip_cons_cons] at hrest hkept
      cases hrest with
      | cons _ hrest => exact ih hroom hrest hkept
      | cons_cons _ hrest =>
        rw [List.map_cons, run_cons_error hcall, hsame, ih hroom hrest hkept]
        rfl
    | ok answer =>
      obtain ⟨reply, d'⟩ := answer
      rw [run_cons_ok hcall] at hroom hrest hkept ⊢
      have hroom := (List.forall_mem_cons.mp hroom).2
      rw [List.zip_cons_cons] at hrest hkept
      cases hrest with
      | cons _ hrest =>
        -- An accepted call that is left out is missing among those that are kept.
        have hle := (hrest.filter accepted).length_le
        rw [hkept] at hle
        exact absurd hle (Nat.not_succ_le_self _)
      | cons_cons _ hrest =>
        rw [List.map_cons, run_cons_ok hcall, ih hroom hrest (List.cons.inj hkept).2]
        rfl

/-- Made in place, one step after another, a call that is refused leaves the draft as it
was.  So the calls that were refused in a run can be left out of it, some or all of them.
Only a blob that is full is another matter. -/
theorem refusal_leaves_no_trace (d : Draft) :
    (∀ c, (perform c).on d = d.step c) ∧
    (∀ c e d', (perform c).on d = (.error e, d') → (∀ what, e ≠ .overflow what) → d' = d) ∧
    ∀ calls, HasRoom (d.run calls).1 → ∀ rest : List (Call × Except DraftFault Reply),
      rest.Sublist (calls.zip (d.run calls).1) →
      rest.filter accepted = (calls.zip (d.run calls).1).filter accepted →
        d.run (rest.map (·.1)) = (rest.map (·.2), (d.run calls).2) ∧
        ∀ account bank, (d.run (rest.map (·.1))).2.build account bank =
          (d.run calls).2.build account bank := by
  refine ⟨fun c => on_perform c d, fun c e d' hrefused hroom => ?_, ?_⟩
  · rw [on_perform, step] at hrefused
    cases hcall : d.call c with
    | ok answer =>
      rw [hcall] at hrefused
      cases hrefused
    | error e' =>
      rw [hcall] at hrefused
      obtain ⟨he, rfl⟩ := Prod.mk.inj hrefused
      obtain rfl := Except.error.inj he
      exact refused_eq hcall hroom
  · intro calls hroom rest hrest hkept
    have hrun := run_of_sublist hroom hrest hkept
    refine ⟨hrun, fun account bank => ?_⟩
    rw [hrun]

/-- A type, another one that is said to stand in it, a class, and a base of it that no one has
added. -/
def phantomNames : List Call :=
  [.addType (.hashed 1 "int") .root 4, .addType (.hashed 2 "Ghost") ⟨.type, 0⟩ 4,
    .addClass (.hashed 3 "Base") .root 8, .setBase ⟨0⟩ ⟨5⟩]

theorem replies_phantomNames : (({ profile := .full } : Draft).run phantomNames).1 =
    [.ok (.added 0), .error (.invalidParent (.decl .type) .type), .ok (.added 0),
      .error (.unknownId ⟨.classType, 5⟩)] := by rfl

theorem refusal_leaves_no_trace_phantomNames :
    (perform (.setBase ⟨0⟩ ⟨5⟩)).on (made .full phantomNames) =
      (.error (.unknownId ⟨.classType, 5⟩), made .full phantomNames) ∧
    ({ profile := .full } : Draft).run
        [.addType (.hashed 1 "int") .root 4, .addClass (.hashed 3 "Base") .root 8] =
      ([.ok (.added 0), .ok (.added 0)], made .full phantomNames) := by
  constructor
  · obtain ⟨_, hrefused, _⟩ := refusal_leaves_no_trace (made .full phantomNames)
    have hanswer : ((perform (.setBase ⟨0⟩ ⟨5⟩)).on (made .full phantomNames)).1 =
        .error (.unknownId ⟨.classType, 5⟩) := by rfl
    have hsame := hrefused _ _ _ (Prod.ext hanswer rfl) fun what he => by cases he
    exact Prod.ext hanswer hsame
  · obtain ⟨_, _, hruns⟩ := refusal_leaves_no_trace { profile := .full }
    have hroom : HasRoom (({ profile := .full } : Draft).run phantomNames).1 := by
      rw [replies_phantomNames]
      intro reply hreply what heq
      subst heq
      simp at hreply
    have hruns := (hruns phantomNames hroom
      [(.addType (.hashed 1 "int") .root 4, .ok (.added 0)),
        (.addClass (.hashed 3 "Base") .root 8, .ok (.added 0))] ?_ ?_).1
    · exact hruns
    · rw [replies_phantomNames]
      exact .cons_cons _ (.cons _ (.cons_cons _ (.cons _ .slnil)))
    · rw [replies_phantomNames]
      rfl

end Draft
end TypeAtlas
