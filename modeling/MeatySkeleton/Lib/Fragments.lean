import Mathlib.Algebra.Group.Nat.Defs
import Mathlib.Data.List.Range

/-!
# Ranges cut at page boundaries

A range of `n` places from `a` on is cut at every multiple of `p`. The fragments are the range in
its order, and each of them lies within one page of `p` places. The first may begin anywhere in
its page, so a range of a few pages has one fragment more.
-/

namespace MeatySkeleton.Lib

/-- The fragments, each by its first place and its length. -/
def fragments (p a n : Nat) : List (Nat × Nat) :=
  if n = 0 ∨ p = 0 then []
  else (a, min n (p - a % p)) :: fragments p (a + min n (p - a % p)) (n - min n (p - a % p))
termination_by n
decreasing_by
  have hlt := Nat.mod_lt a (show 0 < p by omega)
  omega

variable {p a n k : Nat} {f : Nat × Nat}

@[simp] theorem fragments_zero (p a : Nat) : fragments p a 0 = [] := by
  rw [fragments, if_pos (.inl rfl)]

/-- The first fragment, up to the end of its page. -/
theorem fragments_cons (hp : 0 < p) (hn : 0 < n) (hk : min n (p - a % p) = k) :
    fragments p a n = (a, k) :: fragments p (a + k) (n - k) := by
  subst hk
  rw [fragments, if_neg (by omega)]

theorem first_fragment (hp : 0 < p) (hn : 0 < n) (hk : min n (p - a % p) = k) :
    0 < k ∧ k ≤ n ∧ a % p + k ≤ p ∧ (k < n → a % p + k = p) := by
  have hlt := Nat.mod_lt a hp
  omega

/-- The fragments, one after the other, are the range. -/
theorem fragments_cover (hp : 0 < p) (a n : Nat) :
    (fragments p a n).flatMap (fun f => List.range' f.1 f.2) = List.range' a n := by
  induction n using Nat.strong_induction_on generalizing a with
  | _ n ih =>
    rcases Nat.eq_zero_or_pos n with rfl | hn
    · rw [fragments_zero]
      rfl
    · obtain ⟨k, hk⟩ : ∃ k, min n (p - a % p) = k := ⟨_, rfl⟩
      obtain ⟨hpos, hle, -, -⟩ := first_fragment hp hn hk
      have hsplit := List.range'_append_1 (s := a) (m := k) (n := n - k)
      rw [Nat.add_sub_cancel' hle] at hsplit
      rw [fragments_cons hp hn hk, List.flatMap_cons, ih (n - k) (by omega), hsplit]

/-- No fragment is empty or crosses a boundary. -/
theorem fragments_inside (hp : 0 < p) (hf : f ∈ fragments p a n) : 0 < f.2 ∧ f.1 % p + f.2 ≤ p := by
  induction n using Nat.strong_induction_on generalizing a with
  | _ n ih =>
    rcases Nat.eq_zero_or_pos n with rfl | hn
    · rw [fragments_zero] at hf
      cases hf
    · obtain ⟨k, hk⟩ : ∃ k, min n (p - a % p) = k := ⟨_, rfl⟩
      obtain ⟨hpos, hle, hroom, -⟩ := first_fragment hp hn hk
      rw [fragments_cons hp hn hk] at hf
      rcases List.mem_cons.mp hf with rfl | hrest
      · exact ⟨hpos, hroom⟩
      · exact ih (n - k) (by omega) hrest

/-- Behind the first fragment a range begins with a page. -/
theorem mod_first_fragment (hend : a % p + k = p) : (a + k) % p = 0 := by
  have hdiv := Nat.div_add_mod a p
  have hnext : a + k = p * (a / p + 1) := by
    rw [Nat.mul_succ]
    omega
  rw [hnext, Nat.mul_mod_right]

/-- At most as many fragments as pages are touched. -/
theorem fragments_length (hp : 0 < p) (a n : Nat) :
    (fragments p a n).length * p ≤ a % p + n + (p - 1) := by
  induction n using Nat.strong_induction_on generalizing a with
  | _ n ih =>
    rcases Nat.eq_zero_or_pos n with rfl | hn
    · rw [fragments_zero, List.length_nil, Nat.zero_mul]
      exact Nat.zero_le _
    · obtain ⟨k, hk⟩ : ∃ k, min n (p - a % p) = k := ⟨_, rfl⟩
      obtain ⟨hpos, hle, hroom, hmore⟩ := first_fragment hp hn hk
      rw [fragments_cons hp hn hk, List.length_cons, Nat.succ_mul]
      rcases Nat.lt_or_eq_of_le hle with hlt | rfl
      · have hrest := ih (n - k) (by omega) (a + k)
        rw [mod_first_fragment (hmore hlt)] at hrest
        have hend := hmore hlt
        omega
      · rw [Nat.sub_self, fragments_zero, List.length_nil]
        omega

/-- The fragments of an even number of places have even lengths where the range begins at an even
place or lies within one page. -/
theorem fragments_even (hp : 0 < p) (hp2 : p % 2 = 0) (hn2 : n % 2 = 0) :
    (∀ f ∈ fragments p a n, f.2 % 2 = 0) ↔ a % 2 = 0 ∨ a % p + n ≤ p := by
  induction n using Nat.strong_induction_on generalizing a with
  | _ n ih =>
    rcases Nat.eq_zero_or_pos n with rfl | hn
    · have hlt := Nat.mod_lt a hp
      rw [fragments_zero]
      exact iff_of_true nofun (.inr (by omega))
    · obtain ⟨k, hk⟩ : ∃ k, min n (p - a % p) = k := ⟨_, rfl⟩
      obtain ⟨hpos, hle, hroom, hmore⟩ := first_fragment hp hn hk
      rw [fragments_cons hp hn hk, List.forall_mem_cons]
      rcases Nat.lt_or_eq_of_le hle with hlt | rfl
      · have hend := hmore hlt
        have hnext := mod_first_fragment hend
        have heven : a % p % 2 = a % 2 := Nat.mod_mod_of_dvd a (Nat.dvd_of_mod_eq_zero hp2)
        have hstart : (a + k) % 2 = 0 := by
          rw [← Nat.mod_mod_of_dvd (a + k) (Nat.dvd_of_mod_eq_zero hp2), hnext]
        constructor
        · intro ⟨hk2, _⟩
          change k % 2 = 0 at hk2
          exact .inl (by omega)
        · intro hcond
          have ha : a % 2 = 0 := hcond.resolve_right (by omega)
          have hk2 : k % 2 = 0 := by omega
          exact ⟨hk2, (ih (n - k) (by omega) (by omega)).mpr (.inl hstart)⟩
      · rw [Nat.sub_self, fragments_zero]
        exact iff_of_true ⟨hn2, nofun⟩ (.inr hroom)

end MeatySkeleton.Lib
