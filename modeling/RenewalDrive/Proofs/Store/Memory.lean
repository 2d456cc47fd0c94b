import Mathlib.Data.List.Perm.Basic
import RenewalDrive.Store.Memory

/-!
# Names in order

The memory store keeps the names of a group in ascending order, each once, so they are what
sorting the same names in any order gives.
-/

namespace RenewalDrive

variable {name other : String} {names listed : List String}

theorem mem_insertName : name ∈ insertName other names ↔ name = other ∨ name ∈ names := by
  induction names with
  | nil =>
      simp [insertName]
  | cons first rest ih =>
      unfold insertName
      split
      · exact List.mem_cons
      · split
        next heq =>
          subst heq
          simp
        next =>
          rw [List.mem_cons, ih, List.mem_cons]
          exact or_left_comm

def Ascending (names : List String) : Prop :=
  names.Pairwise (· < ·)

theorem Ascending.insertName (h : Ascending names) : Ascending (insertName name names) := by
  induction names with
  | nil => exact List.pairwise_singleton _ _
  | cons first rest ih =>
      rcases List.pairwise_cons.mp h with ⟨hfirst, hrest⟩
      unfold RenewalDrive.insertName
      split_ifs with hlt heq
      · refine List.pairwise_cons.mpr ⟨?_, h⟩
        intro later hlater
        rcases List.mem_cons.mp hlater with rfl | hlater
        · exact hlt
        · exact String.lt_trans hlt (hfirst later hlater)
      · exact h
      · refine List.pairwise_cons.mpr ⟨?_, ih hrest⟩
        intro later hlater
        rcases mem_insertName.mp hlater with rfl | hlater
        · by_contra hge
          exact heq (String.le_antisymm hge (String.not_lt.mp hlt))
        · exact hfirst later hlater

theorem Ascending.nodup (h : Ascending names) : names.Nodup := by
  refine List.Pairwise.imp ?_ h
  rintro first _ hlt rfl
  exact String.lt_irrefl first hlt

theorem mergeSort_eq_of_ascending (h : Ascending names) (hnodup : listed.Nodup)
    (hmem : forall name, name ∈ listed ↔ name ∈ names) :
    (listed.mergeSort fun a b => a ≤ b) = names := by
  have hsorted : (listed.mergeSort fun a b => a ≤ b).Pairwise (· ≤ ·) := by
    have hpairwise := @List.pairwise_mergeSort String (fun a b => decide (a ≤ b))
      (by simpa using fun a b c => String.le_trans) (by simpa using String.le_total) listed
    simpa only [decide_eq_true_eq] using hpairwise
  have hperm : (listed.mergeSort fun a b => a ≤ b).Perm names :=
    (List.mergeSort_perm _ _).trans ((List.perm_ext_iff_of_nodup hnodup h.nodup).mpr hmem)
  refine hperm.eq_of_pairwise (fun a b _ _ => String.le_antisymm) hsorted ?_
  refine List.Pairwise.imp ?_ h
  intro a b hlt
  exact (String.le_total a b).resolve_right (String.not_le.mpr hlt)

theorem MemoryStore.purge_empty (group : Group) (name : String) :
    MemoryStore.empty.purge group name = .empty := by
  simp [MemoryStore.purge, MemoryStore.empty]

end RenewalDrive
