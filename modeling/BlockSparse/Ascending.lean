/-! Strictly ascending lists of natural numbers used as finite sets: the column pattern of a sparse
row, and the distinct sizes met along a block row or block column. Inserting, uniting and collecting
keep the order, and membership is that of the corresponding set operation. -/
namespace BlockSparse

/-- A list in strictly increasing order. -/
def Ascending (s : List Nat) : Prop := s.Pairwise (· < ·)

instance (s : List Nat) : Decidable (Ascending s) :=
  inferInstanceAs (Decidable (s.Pairwise (· < ·)))

namespace Ascending

/-- Adds a number at its place; a number that is already there is not repeated. -/
def insert (n : Nat) : List Nat → List Nat
  | [] => [n]
  | m :: s => if n < m then n :: m :: s else if n = m then m :: s else m :: insert n s

/-- The numbers of either list. -/
def union (s t : List Nat) : List Nat := s.foldr insert t

/-- The distinct numbers of a list, in increasing order. -/
def ofList (l : List Nat) : List Nat := l.foldr insert []

@[simp] theorem union_nil_left (t : List Nat) : union [] t = t := rfl

@[simp] theorem union_cons_left (n : Nat) (s t : List Nat) :
    union (n :: s) t = insert n (union s t) := rfl

@[simp] theorem ofList_nil : ofList [] = [] := rfl

@[simp] theorem ofList_cons (n : Nat) (l : List Nat) : ofList (n :: l) = insert n (ofList l) := rfl

@[simp] theorem mem_insert {k n : Nat} {s : List Nat} : k ∈ insert n s ↔ k = n ∨ k ∈ s := by
  induction s with
  | nil => simp [insert]
  | cons m s ih =>
    simp only [insert]
    split
    · simp
    · split
      · simp_all
      · simp only [List.mem_cons, ih]
        constructor <;> rintro (h | h | h) <;> simp [h]

@[simp] theorem mem_union {k : Nat} {s t : List Nat} : k ∈ union s t ↔ k ∈ s ∨ k ∈ t := by
  induction s with
  | nil => simp
  | cons n s ih => simp [ih, or_assoc]

@[simp] theorem mem_ofList {k : Nat} {l : List Nat} : k ∈ ofList l ↔ k ∈ l := by
  induction l with
  | nil => simp
  | cons n l ih => simp [ih]

theorem insert_ascending {n : Nat} {s : List Nat} (h : Ascending s) : Ascending (insert n s) := by
  induction s with
  | nil => simp [insert, Ascending]
  | cons m s ih =>
    obtain ⟨hm, hs⟩ := List.pairwise_cons.1 h
    simp only [insert]
    split
    · rename_i hlt
      refine List.pairwise_cons.2 ⟨fun k hk => ?_, h⟩
      rcases List.mem_cons.1 hk with rfl | hk
      · exact hlt
      · exact Nat.lt_trans hlt (hm k hk)
    · split
      · exact h
      · refine List.pairwise_cons.2 ⟨fun k hk => ?_, ih hs⟩
        rcases mem_insert.1 hk with rfl | hk
        · omega
        · exact hm k hk

theorem union_ascending {s t : List Nat} (h : Ascending t) : Ascending (union s t) := by
  induction s with
  | nil => exact h
  | cons n s ih => exact insert_ascending ih

theorem ofList_ascending (l : List Nat) : Ascending (ofList l) := by
  induction l with
  | nil => exact List.Pairwise.nil
  | cons n l ih => exact insert_ascending ih

example : union [1, 4, 6] [0, 4, 9] = [0, 1, 4, 6, 9] := by decide

end Ascending
end BlockSparse
