/-
Sequences of calls.

Whatever calls are made on an empty draft, and whichever of them are refused, the
draft they end with is sound and is what the accepted ones have said.
-/
import TypeAtlas.Proofs.Draft.Agreement

namespace TypeAtlas
namespace Draft

variable {d : Draft} {log : Log}

/-! ## The empty draft -/

theorem textTable_sound_empty : ({} : TextTable).Sound := by
  intro _ _ h
  cases h

theorem arena_empty (p : Profile) (a : Arena) : ({ profile := p } : Draft).arena a = #[] :=
  PerArena.get_ofFn _ a

theorem sound_empty (p : Profile) : ({ profile := p } : Draft).Sound where
  nameTexts := textTable_sound_empty
  attributeTexts := textTable_sound_empty
  names n hn := absurd hn (Array.not_mem_empty n)
  profile _ := ⟨rfl, rfl, rfl⟩
  records a r hr := by
    rw [arena_empty] at hr
    exact absurd hr (Array.not_mem_empty r)
  values r hr := absurd hr (Array.not_mem_empty r)
  links a r hr := by
    rw [arena_empty] at hr
    exact absurd hr (Array.not_mem_empty r)
  returned i r hr := by cases hr
  rooted k i hi := by
    rw [arena_empty] at hi
    exact absurd hi (Nat.not_lt_zero i)

theorem agrees_empty (p : Profile) : ({ profile := p } : Draft).Agrees [] where
  numbers a := by
    rw [arena_empty]
    rfl
  records a i entry h := by cases h
  targets entry h := absurd h List.not_mem_nil

/-! ## One call after another -/

theorem run_cons_ok {c : Call} {reply : Reply} {d' : Draft} (h : d.call c = .ok (reply, d'))
    (calls : List Call) : d.run (c :: calls) = (.ok reply :: (d'.run calls).1, (d'.run calls).2) := by
  simp only [run, step, h]

theorem run_cons_error {c : Call} {e : DraftFault} (h : d.call c = .error e) (calls : List Call) :
    d.run (c :: calls) =
      (.error e :: ((d.refused c).run calls).1, ((d.refused c).run calls).2) := by
  simp only [run, step, h]

theorem grows_run (hd : d.TextsSound) (calls : List Call) : d.Grows (d.run calls).2 := by
  induction calls generalizing d with
  | nil => exact .refl d
  | cons c calls ih =>
    cases h : d.call c with
    | error e =>
      have hinterns := interns_refused hd c
      rw [run_cons_error h]
      exact hinterns.grows.trans (ih hinterns.toTextsSound)
    | ok answer =>
      obtain ⟨reply, d'⟩ := answer
      have heffect := effect_of_call hd h
      rw [run_cons_ok h]
      exact heffect.grows.trans (ih (heffect.textsSound hd))

theorem run_spec (hd : d.Sound) (ha : d.Agrees log) (calls : List Call)
    (hnum : (d.run calls).2.Numbered) :
    (d.run calls).2.Sound ∧ (d.run calls).2.Agrees (log ++ Log.of calls (d.run calls).1) := by
  induction calls generalizing d log with
  | nil =>
    have hnil : Log.of [] (d.run []).1 = [] := rfl
    rw [hnil, List.append_nil]
    exact ⟨hd, ha⟩
  | cons c calls ih =>
    cases h : d.call c with
    | error e =>
      have hinterns := interns_refused hd.toTextsSound c
      rw [run_cons_error h] at hnum ⊢
      exact ih (hd.interned hinterns) (ha.interned hinterns) hnum
    | ok answer =>
      obtain ⟨reply, d'⟩ := answer
      have heffect := effect_of_call hd.toTextsSound h
      rw [run_cons_ok h] at hnum ⊢
      have hgrows := grows_run (heffect.textsSound hd.toTextsSound) calls
      have hnum' := hgrows.numbered hnum
      have hrest := ih (heffect.sound hd hnum') (heffect.agrees hd ha hnum') hnum
      have hlog : log ++ Log.of (c :: calls) (.ok reply :: (d'.run calls).1) =
          log ++ [(c, reply)] ++ Log.of calls (d'.run calls).1 := by
        rw [List.append_assoc]
        rfl
      rw [hlog]
      exact hrest

/-- The log of some calls on a new draft. -/
def logOf (p : Profile) (calls : List Call) : Log :=
  Log.of calls (({ profile := p } : Draft).run calls).1

/-- The draft that some calls on a new one end with. -/
def made (p : Profile) (calls : List Call) : Draft := (({ profile := p } : Draft).run calls).2

theorem sound_made {p : Profile} {calls : List Call} (hnum : (made p calls).Numbered) :
    (made p calls).Sound :=
  (run_spec (sound_empty p) (agrees_empty p) calls hnum).1

theorem agrees_made {p : Profile} {calls : List Call} (hnum : (made p calls).Numbered) :
    (made p calls).Agrees (logOf p calls) :=
  (run_spec (sound_empty p) (agrees_empty p) calls hnum).2

end Draft
end TypeAtlas
