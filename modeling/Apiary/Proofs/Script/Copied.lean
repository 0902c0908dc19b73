import Apiary.Proofs.Number.Equality
import Apiary.Proofs.Script.DataText

/-!
Values as data and back. What is read from the data of a value is a copy of it: it is made of new cells, which hold in
the same places equal numbers, the same texts and keys, and copies of what else there was.
-/

namespace Apiary

theorem Double.wholeMagnitude_of_small {x : Double} (hfinite : x.isFinite = true) (h : x.magnitude < 9.0e15) :
    x.wholeMagnitude < 9000000000000000 := by
  rw [lt_positionBound_iff ((isFinite_magnitude x).trans hfinite), isNegative_magnitude, significand_magnitude,
    exponent_magnitude] at h
  exact wholeMagnitude_lt_iff.mpr (h.resolve_left (by decide))

namespace Heap

/-- The kinds of value that data is made of. An item of an array may be undefined. -/
def Storable (h : Heap) : Value → Prop
  | .undefined | .null | .bool _ | .string _ | .array _ => True
  | .number x => x.isFinite = true
  | .object cell => ∀ f ∈ h.object cell, f.2 ≠ .undefined
  | _ => False

/-- The second value is a copy of the first, with no container that the old heap has. -/
inductive Copy (h old new : Heap) : Value → Value → Prop
  | undefined : Copy h old new .undefined .null
  | null : Copy h old new .null .null
  | bool (b : Bool) : Copy h old new (.bool b) (.bool b)
  | number {x y : Double} : (x == y) = true → Copy h old new (.number x) (.number y)
  | string (s : String) : Copy h old new (.string s) (.string s)
  | array {cell fresh : Nat} {items : Array Value} : old.arrays.size ≤ fresh → new.arrays[fresh]? = some items →
    List.Forall₂ (Copy h old new) (h.array cell).toList items.toList → Copy h old new (.array cell) (.array fresh)
  | object {cell fresh : Nat} {fields : List (String × Value)} : old.objects.size ≤ fresh →
    new.objects[fresh]? = some fields → (h.object cell).map Prod.fst = fields.map Prod.fst →
    List.Forall₂ (Copy h old new) ((h.object cell).map Prod.snd) (fields.map Prod.snd) →
    Copy h old new (.object cell) (.object fresh)

variable {h old : Heap}

theorem Keeps.le {g : Heap} (k : old.Keeps g) : old.arrays.size ≤ g.arrays.size ∧ old.objects.size ≤ g.objects.size := by
  refine ⟨Nat.le_of_not_lt fun hlt => ?_, Nat.le_of_not_lt fun hlt => ?_⟩
  · have hlast := k.array (Array.getElem?_eq_getElem hlt)
    exact Nat.lt_irrefl _ (Array.getElem?_eq_some_iff.mp hlast).1
  · have hlast := k.object (Array.getElem?_eq_getElem hlt)
    exact Nat.lt_irrefl _ (Array.getElem?_eq_some_iff.mp hlast).1

theorem keeps_newArray (g : Heap) (items : Array Value) : g.Keeps (g.newArray items).2 := ⟨keeps_push, id⟩

theorem keeps_newObject (g : Heap) (fields : List (String × Value)) : g.Keeps (g.newObject fields).2 := ⟨id, keeps_push⟩

mutual

theorem ofJson_keeps : ∀ (j : Json) (g : Heap), g.Keeps (ofJson j g).2
  | .null, g | .bool _, g | .int _, g | .float _, g | .str _, g => .refl g
  | .arr items, g => (ofJsonItems_keeps items g).trans (keeps_newArray _ _)
  | .obj fields, g => (ofJsonFields_keeps fields g).trans (keeps_newObject _ _)

theorem ofJsonItems_keeps : ∀ (js : List Json) (g : Heap), g.Keeps (ofJsonItems js g).2
  | [], g => .refl g
  | j :: js, g => (ofJson_keeps j g).trans (ofJsonItems_keeps js _)

theorem ofJsonFields_keeps : ∀ (fs : List (String × Json)) (g : Heap), g.Keeps (ofJsonFields fs g).2
  | [], g => .refl g
  | (_, j) :: fs, g => (ofJson_keeps j g).trans (ofJsonFields_keeps fs _)

end

/-- The fields of an object are read as the items of an array are, and keep their keys. -/
theorem ofJsonFields_eq (fs : List (String × Json)) (g : Heap) :
    (ofJsonFields fs g).1.map Prod.fst = fs.map Prod.fst ∧
    ofJsonItems (fs.map Prod.snd) g = ((ofJsonFields fs g).1.map Prod.snd, (ofJsonFields fs g).2) := by
  induction fs generalizing g with
  | nil => exact ⟨rfl, rfl⟩
  | cons f fs ih =>
    obtain ⟨hkeys, hvalues⟩ := ih (ofJson f.2 g).2
    simp only [ofJsonFields, List.map_cons, hkeys, ofJsonItems, hvalues, and_self]

/-- What is read from the data, in a heap that has at least the old cells, copies the value for as long as cells keep
their content. -/
def Restores (h old : Heap) (v : Value) (j : Json) : Prop :=
  ∀ g later : Heap, old.Keeps g → (ofJson j g).2.Keeps later → h.Copy old later v (ofJson j g).1

theorem Restores.constant {v u : Value} {j : Json} (hj : ∀ g, ofJson j g = (u, g)) (hu : ∀ later, h.Copy old later v u) :
    h.Restores old v j := by
  intro g later hold hlater
  rw [hj]
  exact hu later

theorem restores_number {x : Double} (hx : x.isFinite = true) : h.Restores old (.number x) (numberJson x) := by
  rw [numberJson, if_neg (by simp [hx])]
  split
  · next hwhole =>
    have hsmall := Double.wholeMagnitude_of_small hx hwhole.2
    have hsame := Double.ofInt_toInt hwhole.1 (Nat.lt_trans hsmall (by decide))
    exact .constant (fun _ => rfl) fun _ => .number (by rwa [Double.beq_comm])
  · exact .constant (fun _ => rfl) fun _ => .number (Double.beq_self hx)

theorem restores_items {vs : List Value} {js : List Json} (hitems : List.Forall₂ (h.Restores old) vs js) {g later : Heap}
    (hold : old.Keeps g) (hlater : (ofJsonItems js g).2.Keeps later) :
    List.Forall₂ (h.Copy old later) vs (ofJsonItems js g).1 := by
  induction hitems generalizing g with
  | nil => exact .nil
  | @cons v j vs js hitem _ ih =>
    have hnext := hold.trans (ofJson_keeps j g)
    exact .cons (hitem _ _ hold ((ofJsonItems_keeps js _).trans hlater)) (ih hnext hlater)

theorem restores_array {cell : Nat} {js : List Json} (hitems : List.Forall₂ (h.Restores old) (h.array cell).toList js) :
    h.Restores old (.array cell) (.arr js) := by
  intro g later hold hlater
  have hlast := (keeps_newArray _ _).trans hlater
  refine .array (hold.trans (ofJsonItems_keeps js g)).le.1 (hlater.array Array.getElem?_push_size) ?_
  exact restores_items hitems hold hlast

theorem restores_object {cell : Nat} {fs : List (String × Json)}
    (hkeys : (h.object cell).map Prod.fst = fs.map Prod.fst)
    (hvalues : List.Forall₂ (h.Restores old) ((h.object cell).map Prod.snd) (fs.map Prod.snd)) :
    h.Restores old (.object cell) (.obj fs) := by
  intro g later hold hlater
  obtain ⟨hnames, hread⟩ := ofJsonFields_eq fs g
  have hlast := (keeps_newObject _ _).trans hlater
  have hcopies := restores_items hvalues hold (by rwa [hread])
  rw [hread] at hcopies
  exact .object (hold.trans (ofJsonFields_keeps fs g)).le.2 (hlater.object Array.getElem?_push_size)
    (hkeys.trans hnames.symm) hcopies

theorem Storable.isData {v : Value} (hv : h.Storable v) (hdefined : v ≠ .undefined) : Heap.isData v = true := by
  cases v with
  | undefined => exact absurd rfl hdefined
  | function | host | builtin => exact hv.elim
  | _ => simp [Heap.isData, Value.isCallable]

theorem jsonWithin_leaf {v : Value} (harray : ∀ cell, v ≠ .array cell) (hobject : ∀ cell, v ≠ .object cell) (n : Nat) :
    h.jsonWithin n v = h.jsonWithin 0 v := by
  cases n with
  | zero => rfl
  | succ n =>
    cases v with
    | array cell => exact absurd rfl (harray cell)
    | object cell => exact absurd rfl (hobject cell)
    | _ => rfl

theorem restores_leaf {n : Nat} {v : Value} {j : Json} (hj : h.jsonWithin n v = some j) (hv : h.Storable v)
    (harray : ∀ cell, v ≠ .array cell) (hobject : ∀ cell, v ≠ .object cell) : h.Restores old v j := by
  rw [jsonWithin_leaf harray hobject] at hj
  cases v with
  | undefined =>
    cases hj
    exact .constant (fun _ => rfl) fun _ => .undefined
  | null =>
    cases hj
    exact .constant (fun _ => rfl) fun _ => .null
  | bool b =>
    cases hj
    exact .constant (fun _ => rfl) fun _ => .bool b
  | number x =>
    cases hj
    exact restores_number hv
  | string s =>
    cases hj
    exact .constant (fun _ => rfl) fun _ => .string s
  | array cell => exact absurd rfl (harray cell)
  | object cell => exact absurd rfl (hobject cell)
  | _ => exact hv.elim

theorem restores_json {n : Nat} {v : Value} {j : Json} (hj : h.jsonWithin n v = some j)
    (made : ∀ u, Relation.ReflTransGen h.Holds v u → h.Storable u) : h.Restores old v j := by
  -- on the levels that the conversion may still descend
  induction n generalizing v j with
  | zero =>
    cases v with
    | array | object => cases hj
    | _ => exact restores_leaf hj (made _ .refl) nofun nofun
  | succ n ih =>
    cases v with
    | array cell =>
      simp only [jsonWithin, Option.bind_eq_bind, Option.bind_eq_some_iff] at hj
      obtain ⟨js, hmap, heq⟩ := hj
      cases heq
      have hitems := forall₂_of_mapM hmap
      refine restores_array (List.forall₂_iff_get.mpr ⟨hitems.length_eq, fun i hi hj => ?_⟩)
      have hholds : h.Holds (.array cell) (h.array cell).toList[i] := .item (List.getElem_mem hi)
      exact ih ((List.forall₂_iff_get.mp hitems).2 i hi hj) fun u hu => made u (.head hholds hu)
    | object cell =>
      have hall : (h.object cell).filter (fun p => Heap.isData p.2) = h.object cell := by
        refine List.filter_eq_self.mpr fun f hf => ?_
        exact (made f.2 (.single (.field hf))).isData (made (.object cell) .refl f hf)
      simp only [jsonWithin, hall, Option.bind_eq_bind, Option.bind_eq_some_iff] at hj
      obtain ⟨fs, hmap, heq⟩ := hj
      cases heq
      have hfields := (forall₂_of_mapM hmap).imp fun x y hy => field_json hy
      refine restores_object (keys_eq (hfields.imp fun _ _ hy => hy.1)) ?_
      rw [List.forall₂_map_left_iff, List.forall₂_map_right_iff]
      refine List.forall₂_iff_get.mpr ⟨hfields.length_eq, fun i hi hj => ?_⟩
      have hholds : h.Holds (.object cell) _ := .field (List.getElem_mem hi)
      exact ih ((List.forall₂_iff_get.mp hfields).2 i hi hj).2 fun u hu => made u (.head hholds hu)
    | _ => exact restores_leaf hj (made _ .refl) nofun nofun

/-- An acyclic value made of what data is made of has data, and what is read from the data is a copy of it. -/
theorem data_restores {v : Value} (acyclic : ¬ h.Circular v)
    (made : ∀ u, Relation.ReflTransGen h.Holds v u → h.Storable u) :
    ∃ data, h.json? v = some data ∧
      ∀ g, g.Keeps (ofJson data g).2 ∧ h.Copy g (ofJson data g).2 v (ofJson data g).1 := by
  cases hj : h.json? v with
  | none => exact absurd (circular_of_json hj) acyclic
  | some data =>
    exact ⟨data, rfl, fun g => ⟨ofJson_keeps data g, restores_json hj made g (ofJson data g).2 (.refl g) (.refl _)⟩⟩

end Heap

end Apiary
