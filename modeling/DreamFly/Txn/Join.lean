import DreamFly.Txn.Store
import DreamFly.Lists.Groups

/-!
# Sums over joined tables

The rows of one table refer to rows of another. Adding up what refers to each row, row by
row, counts every reference once (`total_join`).
-/

namespace Txn.Store

variable {S : Schema} {d d' : Store S} {t t' : S.Tbl}

theorem total_swap (f : S.Key t → S.Row t → S.Key t' → S.Row t' → ℤ) :
    (d.total t fun k r => d'.total t' fun k' r' => f k r k' r') = d'.total t' fun k' r' =>
      d.total t fun k r => f k r k' r' :=
  Lists.sum_swap _ _ _

/-- A sum to which one row contributes. -/
theorem total_one (k : S.Key t) (f : S.Row t → ℤ) :
    (d.total t fun k' r => if k = k' then f r else 0) = (d.get t k).elim 0 f := by
  have hzero : Table.total (fun k' r => if k = k' then f r else 0) ((d t).erase k) = 0 :=
    Table.total_eq_zero fun k' r hr => if_neg fun he => by
      rw [← he, AList.lookup_erase] at hr
      cases hr
  have htotal := Table.total_erase (fun k' r => if k = k' then f r else 0) (d t) k
  rw [hzero] at htotal
  have hshare : (d t).share (fun k' r => if k = k' then f r else 0) k = (d.get t k).elim 0 f := by
    cases hr : d.get t k with
    | none => exact Table.share_none hr
    | some r => rw [Table.share_some hr, if_pos rfl, Option.elim_some]
  have hd : (d.total t fun k' r => if k = k' then f r else 0) =
      Table.total (fun k' r => if k = k' then f r else 0) (d t) := rfl
  rw [hd, ← hshare]
  omega

/-- **Row by row, each reference counts once.** -/
theorem total_join (ref : S.Row t' → S.Key t) (p : S.Row t → Bool) (f : S.Row t' → ℤ) :
    (d.total t fun k r => if p r then d'.total t' fun _ r' => if ref r' = k then f r' else
      0 else 0) =
      d'.total t' fun _ r' => if (d.get t (ref r')).any p then f r' else 0 := by
  have hpush : ∀ k r, (if p r then d'.total t' fun _ r' => if ref r' = k then f r' else 0 else 0) =
      d'.total t' fun _ r' => if ref r' = k then (if p r then f r' else 0) else 0 := fun k r => by
    cases p r with
    | true => rfl
    | false => exact (total_eq_zero fun _ _ _ => by simp).symm
  simp only [hpush]
  rw [total_swap]
  congr 1
  funext k' r'
  rw [total_one]
  cases d.get t (ref r') with
  | none => rfl
  | some r => rfl

end Txn.Store
