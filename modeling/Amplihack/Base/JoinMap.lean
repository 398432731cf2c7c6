import Mathlib.Data.Finmap
import Mathlib.Order.WithBot

/-
  Finite maps whose values join, merged entry by entry.

  A missing entry stands below every value, so the entries
  form the lattice of the values with a bottom added, and
  merging inherits its laws.
-/

-- Maps Of Joined Values

namespace Base

/- A finite map, one value a key. -/
abbrev JoinMap (κ ν : Type) : Type :=
  Finmap fun _ : κ => ν

namespace JoinMap

variable {κ ν : Type}
variable [DecidableEq κ]

/- Maps are equal when every lookup is. -/
theorem ext
    {m n : JoinMap κ ν} (hLookup : ∀ k, m.lookup k = n.lookup k) :
    m = n :=
  Finmap.ext_lookup hLookup

theorem lookup_insert
    (k k' : κ) (v : ν) (m : JoinMap κ ν) :
    (m.insert k v).lookup k' =
      if k' = k then some v else m.lookup k' := by
  split
  · next hEq =>
      subst hEq
      exact Finmap.lookup_insert m
  · next hNe => exact Finmap.lookup_insert_of_ne m hNe

variable [SemilatticeSup ν] [OrderBot ν]

/- The value at `k`; the bottom one when there is none. -/
def get (m : JoinMap κ ν) (k : κ) : ν :=
  (m.lookup k).getD ⊥

/- Join `v` into the value at `k`, made when there is none. -/
def joinAt (k : κ) (v : ν) (m : JoinMap κ ν) : JoinMap κ ν :=
  m.insert k (m.get k ⊔ v)

/- A value with a bottom added. -/
def orBot (v : Option ν) : WithBot ν :=
  v.elim ⊥ fun v => v

/- The entry at `k`; the added bottom when there is none. -/
def entry (m : JoinMap κ ν) (k : κ) : WithBot ν :=
  orBot (m.lookup k)

omit [SemilatticeSup ν] [OrderBot ν] in
theorem orBot_injective :
    Function.Injective (orBot : Option ν → WithBot ν) := by
  intro v w hEq
  cases v with
  | none =>
    cases w with
    | none => rfl
    | some w => exact absurd hEq.symm (WithBot.coe_ne_bot)
  | some v =>
    cases w with
    | none => exact absurd hEq (WithBot.coe_ne_bot)
    | some w => exact congrArg some (WithBot.coe_inj.mp hEq)

omit [SemilatticeSup ν] [OrderBot ν] in
theorem ext_entry
    {m n : JoinMap κ ν} (hEntry : ∀ k, m.entry k = n.entry k) :
    m = n :=
  ext fun k => orBot_injective (hEntry k)

theorem entry_joinAt
    (k k' : κ) (v : ν) (m : JoinMap κ ν) :
    (m.joinAt k v).entry k' =
      if k' = k then m.entry k' ⊔ v else m.entry k' := by
  unfold entry joinAt
  rw [lookup_insert]
  by_cases hEq : k' = k
  · subst hEq
    rw [if_pos rfl, if_pos rfl, get]
    cases m.lookup k' with
    | none | some _ => simp [orBot]
  · rw [if_neg hEq, if_neg hEq]

theorem joinAt_comm
    (k k' : κ) (v v' : ν) (m : JoinMap κ ν) :
    (m.joinAt k v).joinAt k' v' = (m.joinAt k' v').joinAt k v := by
  apply ext_entry
  intro j
  simp only [entry_joinAt]
  split_ifs
  · exact sup_right_comm _ _ _
  · rfl
  · rfl
  · rfl

/- Join every entry of `n` into `m`. -/
def merge (m n : JoinMap κ ν) : JoinMap κ ν :=
  n.foldl (fun acc k v => acc.joinAt k v)
    (fun acc k v k' v' => joinAt_comm k k' v v' acc) m

/- Joining a list of entries joins each into its key. -/
theorem entry_foldl_joinAt
    (k : κ) :
    ∀ {entries : List (Sigma fun _ : κ => ν)}
      {acc : JoinMap κ ν},
      entries.NodupKeys →
        (entries.foldl (fun acc e => acc.joinAt e.1 e.2) acc).entry k =
          acc.entry k ⊔ orBot (entries.dlookup k) := by
  intro entries
  induction entries with
  | nil => exact fun _ => (sup_bot_eq _).symm
  | cons e entries ih =>
    intro acc hNodup
    rcases e with ⟨k', v⟩
    rw [List.nodupKeys_cons] at hNodup
    rw [List.foldl_cons, ih hNodup.2, entry_joinAt]
    by_cases hEq : k = k'
    · subst hEq
      have hRest : entries.dlookup k = none :=
        List.dlookup_eq_none.mpr hNodup.1
      rw [if_pos rfl, hRest, List.dlookup_cons_eq]
      simp [orBot]
    · rw [if_neg hEq, List.dlookup_cons_ne _ _ hEq]

/- Merging joins the two entries at every key. -/
theorem entry_merge
    (m n : JoinMap κ ν) (k : κ) :
    (m.merge n).entry k = m.entry k ⊔ n.entry k := by
  induction n using Finmap.induction_on with
  | H n => exact entry_foldl_joinAt k n.nodupKeys

theorem merge_comm (m n : JoinMap κ ν) :
    m.merge n = n.merge m := by
  apply ext_entry
  intro k
  rw [entry_merge, entry_merge, sup_comm]

theorem merge_assoc (m n o : JoinMap κ ν) :
    (m.merge n).merge o = m.merge (n.merge o) := by
  apply ext_entry
  intro k
  simp only [entry_merge, sup_assoc]

theorem merge_self (m : JoinMap κ ν) :
    m.merge m = m := by
  apply ext_entry
  intro k
  rw [entry_merge, sup_idem]

-- Values

@[simp] theorem get_empty (k : κ) :
    (∅ : JoinMap κ ν).get k = ⊥ := by
  rw [get, Finmap.lookup_empty, Option.getD_none]

theorem get_eq_unbotD (m : JoinMap κ ν) (k : κ) :
    m.get k = (m.entry k).unbotD ⊥ := by
  unfold get entry
  cases m.lookup k <;> rfl

@[simp] theorem get_joinAt
    (k k' : κ) (v : ν) (m : JoinMap κ ν) :
    (m.joinAt k v).get k' =
      if k' = k then m.get k' ⊔ v else m.get k' := by
  unfold joinAt
  rw [get, lookup_insert]
  by_cases hEq : k' = k
  · rw [if_pos hEq, if_pos hEq, Option.getD_some, hEq]
  · rw [if_neg hEq, if_neg hEq, get]

@[simp] theorem get_merge (m n : JoinMap κ ν) (k : κ) :
    (m.merge n).get k = m.get k ⊔ n.get k := by
  simp only [get_eq_unbotD, entry_merge]
  cases m.entry k with
  | bot => simp
  | coe v =>
    cases n.entry k with
    | bot => simp
    | coe w => rfl

end JoinMap

end Base
