/-!
# Dictionaries

A dictionary is a list of pairs in the order in which its keys were first set.
-/

namespace Protobind

/-- Pairs of keys and values, in the order in which the keys were first set. -/
abbrev Dictionary (α β : Type) := List (α × β)

namespace Dictionary

variable {α β : Type} [BEq α]

def set (key : α) (value : β) : Dictionary α β → Dictionary α β
  | [] => [(key, value)]
  | (k, v) :: rest => if k == key then (k, value) :: rest else (k, v) :: set key value rest

def get? (key : α) : Dictionary α β → Option β
  | [] => none
  | (k, v) :: rest => if k == key then some v else get? key rest

def contains (key : α) (d : Dictionary α β) : Bool := (get? key d).isSome

def erase (key : α) (d : Dictionary α β) : Dictionary α β := d.filter fun (k, _) => !(k == key)

def ofPairs (pairs : List (α × β)) : Dictionary α β :=
  pairs.foldl (fun d (k, v) => set k v d) []

def ofFirst (pairs : List (α × β)) : Dictionary α β :=
  pairs.foldl (fun d (k, v) => if contains k d then d else d ++ [(k, v)]) []

theorem get?_set [LawfulBEq α] (key k : α) (value : β) (d : Dictionary α β) :
    get? k (set key value d) = if key == k then some value else get? k d := by
  induction d with
  | nil => simp [set, get?]
  | cons p rest ih =>
    obtain ⟨k', v⟩ := p
    by_cases h : k' = key
    · subst h
      by_cases h' : k' = k <;> simp [set, get?, h']
    · have hne : (k' == key) = false := by simp [h]
      by_cases h' : k' = k
      · subst h'
        have : (key == k') = false := by simp [Ne.symm h]
        simp [set, get?, hne, this]
      · simp [set, get?, hne, h', ih]

end Dictionary

def insertByNumber {β : Type} (p : Int × β) : List (Int × β) → List (Int × β)
  | [] => [p]
  | q :: rest => if p.1 ≤ q.1 then p :: q :: rest else q :: insertByNumber p rest

def sortByNumber {β : Type} (pairs : List (Int × β)) : List (Int × β) :=
  pairs.foldr insertByNumber []

end Protobind
