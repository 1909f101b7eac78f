import Mathlib.Data.List.Basic

namespace OSPortfolio.Stream

/-!
# The shortest nonempty prefix that reaches a state

A loop that reads events one at a time and stops as soon as a condition holds of the state
it has built up consumes, by intent, the shortest nonempty prefix of the events after which
the condition holds.  This file says that twice and connects the two:

* `ShortestPrefix P pre xs` — the declarative form: `pre` is a nonempty prefix of `xs` with
  `P`, and no shorter nonempty prefix has `P`;
* `firstStop upd stop s xs` — the executable form, threading a state through the events;
* `firstStop_eq_some_iff` — they agree, and `ShortestPrefix.unique` — there is at most one.
-/

universe u v

variable {τ : Type u} {ε : Type v}

/-- `pre` is the shortest nonempty prefix of `xs` that has `P`. -/
structure ShortestPrefix (P : List ε → Prop) (pre xs : List ε) : Prop where
  nonempty : pre ≠ []
  isPrefix : pre <+: xs
  holds : P pre
  least : ∀ q, q ≠ [] → q <+: xs → P q → pre.length ≤ q.length

/-- There is at most one shortest prefix. -/
theorem ShortestPrefix.unique {P : List ε → Prop} {p q xs : List ε}
    (hp : ShortestPrefix P p xs) (hq : ShortestPrefix P q xs) : p = q := by
  have hpq : p.length ≤ q.length := hp.least q hq.nonempty hq.isPrefix hq.holds
  have hqp : q.length ≤ p.length := hq.least p hp.nonempty hp.isPrefix hp.holds
  exact (List.prefix_of_prefix_length_le hp.isPrefix hq.isPrefix hpq).eq_of_length (by omega)

/-- Read events into the state `s` until `stop` holds of it; the events read, if it ever
    does. -/
def firstStop (upd : τ → ε → τ) (stop : τ → Bool) : τ → List ε → Option (List ε)
  | _, [] => none
  | s, e :: es =>
    if stop (upd s e) then some [e] else (firstStop upd stop (upd s e) es).map (e :: ·)

section
variable (upd : τ → ε → τ) (stop : τ → Bool)

/-- `firstStop` returns the shortest prefix that ends in a stopping state. -/
theorem firstStop_shortest (s : τ) (xs pre : List ε)
    (h : firstStop upd stop s xs = some pre) :
    ShortestPrefix (fun l => stop (l.foldl upd s) = true) pre xs := by
  induction xs generalizing s pre with
  | nil => simp [firstStop] at h
  | cons e es ih =>
    simp only [firstStop] at h
    split at h
    · rename_i hstop
      obtain rfl := Option.some.inj h
      refine ⟨by simp, ⟨es, rfl⟩, hstop, ?_⟩
      intro q hq _ _
      exact List.length_pos_iff.mpr hq
    · rename_i hgo
      obtain ⟨p, hp, rfl⟩ := Option.map_eq_some_iff.mp h
      have hrec := ih (upd s e) p hp
      refine ⟨by simp, List.prefix_cons_inj e |>.mpr hrec.isPrefix, hrec.holds, ?_⟩
      intro q hq hpre hhold
      -- a shorter stopping prefix would already stop the recursive call, or be `[e]`
      cases q with
      | nil => exact absurd rfl hq
      | cons e' q' =>
        obtain ⟨rfl, hpre'⟩ := List.cons_prefix_cons.mp hpre
        have hq' : q' ≠ [] := by
          rintro rfl
          exact hgo hhold
        have := hrec.least q' hq' hpre' hhold
        simpa using this

/-- When some nonempty prefix ends in a stopping state, `firstStop` finds one. -/
theorem firstStop_isSome (s : τ) (xs q : List ε) (hq : q ≠ []) (hpre : q <+: xs)
    (hstop : stop (q.foldl upd s) = true) : (firstStop upd stop s xs).isSome := by
  induction xs generalizing s q with
  | nil => exact absurd (List.prefix_nil.mp hpre) hq
  | cons e es ih =>
    simp only [firstStop]
    split
    · rfl
    · rename_i hgo
      rw [Option.isSome_map]
      cases q with
      | nil => exact absurd rfl hq
      | cons e' q' =>
        obtain ⟨rfl, hpre'⟩ := List.cons_prefix_cons.mp hpre
        have hq' : q' ≠ [] := by
          rintro rfl
          exact hgo hstop
        exact ih (upd s e') q' hq' hpre' hstop

/-- **The two forms agree.** -/
theorem firstStop_eq_some_iff (s : τ) (xs pre : List ε) :
    firstStop upd stop s xs = some pre ↔
      ShortestPrefix (fun l => stop (l.foldl upd s) = true) pre xs := by
  constructor
  · exact firstStop_shortest upd stop s xs pre
  · intro h
    obtain ⟨p, hp⟩ := Option.isSome_iff_exists.mp
      (firstStop_isSome upd stop s xs pre h.nonempty h.isPrefix h.holds)
    rw [hp, (firstStop_shortest upd stop s xs p hp).unique h]

end

end OSPortfolio.Stream
