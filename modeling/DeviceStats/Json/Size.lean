import DeviceStats.Json.Value

/-!
# Json/Size — how large a value is

The size counts values and their places.  Taking entries out of an object takes their sizes off,
and putting the entries of one object into another adds at most their sizes, so recursion that
rearranges a value can be measured by it.
-/

namespace DeviceStats.Json

namespace Value

mutual

def size : Value → Nat
  | .arr items => sizeItems items + 1
  | .obj fields => sizeFields fields + 1
  | _ => 1

/-- The size of an array's contents; a place counts as one. -/
def sizeItems : List Value → Nat
  | [] => 0
  | v :: vs => v.size + 1 + sizeItems vs

/-- The size of an object's contents; a name counts as one. -/
def sizeFields : List (String × Value) → Nat
  | [] => 0
  | (_, v) :: rest => v.size + 1 + sizeFields rest

end

/-- Writing under a name adds no more than the value and its place. -/
theorem sizeFields_insert_le (o : Object) (key : String) (v : Value) :
    sizeFields (Named.insert o key v) ≤ sizeFields o + (v.size + 1) := by
  induction o with
  | nil => simp [Named.insert, sizeFields]
  | cons kv rest ih =>
    obtain ⟨k, w⟩ := kv
    by_cases h : k = key
    · simp only [Named.insert, h, if_true, sizeFields]
      omega
    · simp only [Named.insert, h, if_false, sizeFields]
      omega

/-- Merging adds no more than what is merged in. -/
theorem sizeFields_extend_le (o more : Object) :
    sizeFields (Named.extend o more) ≤ sizeFields o + sizeFields more := by
  induction more generalizing o with
  | nil => simp [Named.extend, sizeFields]
  | cons kv rest ih =>
    have h := ih (Named.insert o kv.1 kv.2)
    have h' := sizeFields_insert_le o kv.1 kv.2
    simp only [Named.extend, List.foldl_cons, sizeFields] at h ⊢
    omega

theorem sizeFields_erase_le (o : Object) (key : String) :
    sizeFields (Named.erase o key) ≤ sizeFields o := by
  induction o with
  | nil => simp [Named.erase]
  | cons kv rest ih =>
    simp only [Named.erase, List.filter_cons, sizeFields] at ih ⊢
    split
    · simp only [sizeFields]
      omega
    · omega

/-- Taking an entry out takes its size off. -/
theorem sizeFields_erase_add_le {o : Object} {key : String} {v : Value}
    (h : Named.get? o key = some v) :
    sizeFields (Named.erase o key) + (v.size + 1) ≤ sizeFields o := by
  induction o with
  | nil => simp at h
  | cons kv rest ih =>
    obtain ⟨k, w⟩ := kv
    have hle := sizeFields_erase_le rest key
    rw [Named.get?_cons] at h
    by_cases hk : k = key
    · simp only [hk, if_true, Option.some.injEq] at h
      simp only [Named.erase, List.filter_cons, hk, sizeFields, h] at hle ⊢
      simpa using by omega
    · simp only [hk, if_false] at h
      have := ih h
      simp only [Named.erase, List.filter_cons, sizeFields] at this ⊢
      simp only [bne_iff_ne, ne_eq, hk, not_false_eq_true, if_true, sizeFields]
      omega

end Value

end DeviceStats.Json
