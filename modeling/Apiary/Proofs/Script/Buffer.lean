import Apiary.Proofs.Script.Element
import Apiary.Proofs.Script.Record

/-!
Methods that change an array, called on a buffer. `push`, `pop`, `shift` and `fill` change the buffer as they change an
array of the same numbers. `unshift`, `reverse` and `sort` work on a copy, and the buffer stays.
-/

namespace Apiary

/-- A method answers with its receiver or with a value of its own. -/
inductive Answer
  | receiver
  | value (v : Value)

def Answer.on (this : Value) : Answer → Value
  | .receiver => this
  | .value v => v

/-- Narrowing keeps the number. -/
def Double.IsSingle (x : Double) : Prop := Single.widen x.narrow = x

theorem Heap.modifyBuffer_eq {h : Heap} (cell : Nat) (f : Array Single → Array Single) :
    h.modifyBuffer cell f = h.modifyBuffer cell fun _ => f (h.singles (.own cell)) := by
  have hbuffers : h.buffers.modify cell f = h.buffers.modify cell fun _ => f (h.singles (.own cell)) := by
    refine Array.ext_getElem? fun k => ?_
    rw [Array.getElem?_modify, Array.getElem?_modify]
    split
    · next heq =>
      subst heq
      cases hk : h.buffers[cell]? <;> simp [Heap.singles, Array.getD_eq_getD_getElem?, hk]
    · rfl
  rw [modifyBuffer, modifyBuffer, hbuffers]

section

variable {σ : Type}

def World.withSingles (w : World σ) (cell : Nat) (data : Array Single) : World σ :=
  { w with heap := w.heap.modifyBuffer cell fun _ => data }

def World.withArray (w : World σ) (items : Array Value) : World σ := { w with heap := (w.heap.newArray items).2 }

variable {w : World σ} {cell : Nat}

theorem singles_withSingles (hcell : cell < w.heap.buffers.size) (data : Array Single) :
    (w.withSingles cell data).heap.singles (.own cell) = data := by
  simp only [World.withSingles, Heap.modifyBuffer, Heap.singles, Array.getD_eq_getD_getElem?, Array.getElem?_modify,
    if_true, Array.getElem?_eq_getElem hcell, Option.map_some, Option.getD_some]

theorem withSingles_withSingles (data data' : Array Single) :
    (w.withSingles cell data).withSingles cell data' = w.withSingles cell data' := by
  have hbuffers : (w.heap.buffers.modify cell fun _ => data).modify cell (fun _ => data') =
      w.heap.buffers.modify cell fun _ => data' := by
    refine Array.ext_getElem? fun k => ?_
    simp only [Array.getElem?_modify]
    split
    · exact Option.map_map ..
    · rfl
  simp only [World.withSingles, Heap.modifyBuffer, hbuffers]

theorem withSingles_self : w.withSingles cell (w.heap.singles (.own cell)) = w := by
  have hbuffers : w.heap.buffers.modify cell id = w.heap.buffers :=
    Array.ext_getElem? fun k => by simp [Array.getElem?_modify]
  have hheap := calc
    w.heap.modifyBuffer cell (fun _ => w.heap.singles (.own cell)) = w.heap.modifyBuffer cell id :=
      (Heap.modifyBuffer_eq cell id).symm
    _ = w.heap := by rw [Heap.modifyBuffer, hbuffers]
  rw [World.withSingles, hheap]

theorem withArray_withItems (items items' : Array Value) :
    (w.withArray items).withItems w.heap.arrays.size items' = w.withArray items' := by
  have harrays : (w.heap.arrays.push items).setIfInBounds w.heap.arrays.size items' = w.heap.arrays.push items' := by
    refine Array.ext_getElem? fun k => ?_
    rw [Array.getElem?_setIfInBounds, Array.getElem?_push, Array.getElem?_push]
    grind
  simp only [World.withArray, World.withItems, Heap.newArray, Heap.setArray, harrays]

theorem lt_size_withArray (items : Array Value) : w.heap.arrays.size < (w.withArray items).heap.arrays.size := by
  simp [World.withArray, Heap.newArray]

theorem array_withArray (items : Array Value) : (w.withArray items).heap.array w.heap.arrays.size = items := by
  simp [World.withArray, Heap.newArray, Heap.array]

end

namespace Act

variable {σ : Type} {host : Host σ} {call : Calling σ} {w w' : World σ} {cell : Nat}

theorem callMethod_of_method {this v : Value} {name : String} {args : List Value} (what : String)
    (hthis : this.isNullish = false) (hmethod : method? host call this name args w = .ok (some v) w') :
    callMethod host call this name args what w = .ok v w' := by
  cases this with
  | undefined | null => cases hthis
  | _ =>
    simp only [callMethod, bind, EStateM.bind, hmethod]
    rfl

theorem update_array (hcell : cell < w.heap.arrays.size) (f : Array Value → Array Value) :
    update (·.modifyArray cell f) w = .ok () (w.withItems cell (f (w.heap.array cell))) := by
  have hupdate : update (·.modifyArray cell f) w = .ok () { w with heap := w.heap.modifyArray cell f } := rfl
  rw [hupdate, Heap.modifyArray_eq hcell]
  rfl

theorem update_buffer (f : Array Single → Array Single) :
    update (·.modifyBuffer cell f) w = .ok () (w.withSingles cell (f (w.heap.singles (.own cell)))) := by
  have hupdate : update (·.modifyBuffer cell f) w = .ok () { w with heap := w.heap.modifyBuffer cell f } := rfl
  rw [hupdate, Heap.modifyBuffer_eq]
  rfl

section Array

variable (call : Calling σ) (args : List Value) (hcell : cell < w.heap.arrays.size)

include hcell

theorem update_array_pure {α : Type} (f : Array Value → Array Value) (x : α) :
    (do update (·.modifyArray cell f); pure x : Act σ α) w = .ok x (w.withItems cell (f (w.heap.array cell))) := by
  simp only [bind, EStateM.bind, update_array hcell]
  rfl

theorem update_array_size (f : Array Value → Array Value) :
    (do update (·.modifyArray cell f); some <$> arraySize cell : Act σ (Option Value)) w =
      .ok (some (.ofNat (f (w.heap.array cell)).size)) (w.withItems cell (f (w.heap.array cell))) := by
  simp only [bind, EStateM.bind, update_array hcell, Functor.map, EStateM.map, arraySize, look, array_withItems hcell]

theorem arrayMethod_push : arrayMethod call cell "push" args w =
    .ok (some (.ofNat (w.heap.array cell ++ args.toArray).size)) (w.withItems cell (w.heap.array cell ++ args.toArray)) :=
  update_array_size hcell (· ++ args.toArray)

theorem arrayMethod_unshift : arrayMethod call cell "unshift" args w =
    .ok (some (.ofNat (args.toArray ++ w.heap.array cell).size)) (w.withItems cell (args.toArray ++ w.heap.array cell)) :=
  update_array_size hcell (args.toArray ++ ·)

theorem arrayMethod_pop : arrayMethod call cell "pop" args w =
    .ok (some ((w.heap.array cell).back?.getD .undefined)) (w.withItems cell (w.heap.array cell).pop) :=
  update_array_pure hcell Array.pop _

theorem arrayMethod_shift : arrayMethod call cell "shift" args w =
    .ok (some ((w.heap.array cell)[0]?.getD .undefined))
      (w.withItems cell ((w.heap.array cell).extract 1 (w.heap.array cell).size)) :=
  update_array_pure hcell (fun items => items.extract 1 items.size) _

theorem arrayMethod_reverse : arrayMethod call cell "reverse" args w =
    .ok (some (.array cell)) (w.withItems cell (w.heap.array cell).reverse) :=
  update_array_pure hcell Array.reverse _

theorem arrayMethod_fill : arrayMethod call cell "fill" args w =
    .ok (some (.array cell)) (w.withItems cell (Array.replicate (w.heap.array cell).size (argAt args 0))) :=
  update_array_pure hcell (fun items => Array.replicate items.size (argAt args 0)) _

end Array

section Sorting

variable {ask : Value → Value → Act σ Bool}

theorem merge_numbers (hask : ∀ x y, ∃ b, ask (.number x) (.number y) = pure b) (n : Nat) (done left right : List Double) :
    ∃ ys : List Double, merge ask n (done.map .number) (left.map .number) (right.map .number) = pure (ys.map .number) := by
  have hstop (done left right : List Double) : ∃ ys : List Double, (pure ((done.map Value.number).reverse ++ left.map .number ++ right.map .number) :
      Act σ (List Value)) = pure (ys.map .number) :=
    ⟨done.reverse ++ left ++ right, by simp only [List.map_append, List.map_reverse]⟩
  induction n generalizing done left right with
  | zero => exact hstop done left right
  | succ n ih =>
    match left, right with
    | [], right => exact hstop done [] right
    | x :: left, [] => exact hstop done (x :: left) []
    | x :: left, y :: right =>
      obtain ⟨b, hb⟩ := hask x y
      simp only [List.map_cons, merge, hb, pure_bind]
      cases b with
      | true => exact ih (y :: done) (x :: left) right
      | false => exact ih (x :: done) left (y :: right)

theorem mergeSort_numbers (hask : ∀ x y, ∃ b, ask (.number x) (.number y) = pure b) (n : Nat) (xs : List Double) :
    ∃ ys : List Double, mergeSort ask n (xs.map .number) = pure (ys.map .number) := by
  induction n generalizing xs with
  | zero => exact ⟨xs, rfl⟩
  | succ n ih =>
    unfold mergeSort
    split
    · exact ⟨xs, rfl⟩
    · obtain ⟨left, hleft⟩ := ih (xs.take (xs.length / 2))
      obtain ⟨right, hright⟩ := ih (xs.drop (xs.length / 2))
      simp only [List.length_map, ← List.map_take, ← List.map_drop, hleft, hright, pure_bind]
      exact merge_numbers hask _ [] left right

theorem comesBefore_numbers (call : Calling σ) {comparator : Value} (hc : comparator.isCallable = false) (x y : Double) :
    ∃ b, comesBefore call comparator (.number x) (.number y) = pure b := by
  refine ⟨decide (numberText y < numberText x), ?_⟩
  unfold comesBefore
  rw [if_neg (by rw [hc]; exact Bool.false_ne_true)]
  rfl

theorem arrayMethod_sort (call : Calling σ) {args : List Value} (hc : (argAt args 0).isCallable = false) (xs : List Double) :
    ∃ ys : List Double, ∀ {w : World σ} {cell : Nat}, w.heap.array cell = (xs.map Value.number).toArray →
      arrayMethod call cell "sort" args w = .ok (some (.array cell)) (w.withItems cell (ys.map Value.number).toArray) := by
  -- texts of numbers are the same in every world, so the order is found before the world is known
  obtain ⟨ys, hys⟩ := mergeSort_numbers (comesBefore_numbers call hc) xs.length xs
  refine ⟨ys, fun {w cell} hitems => ?_⟩
  have hsteps : arrayMethod call cell "sort" args = (some <$> sortMethod call cell (argAt args 0) : Act σ (Option Value)) :=
    rfl
  have hsorted : mergeSort (comesBefore call (argAt args 0)) (w.heap.array cell).toList.length (w.heap.array cell).toList =
      pure (ys.map Value.number) := by
    rw [hitems, List.toList_toArray, List.length_map, hys]
  simp only [hsteps, sortMethod, bind, EStateM.bind, Functor.map, EStateM.map, look, hsorted]
  rfl

end Sorting

section Buffer

variable {args : List Value}

theorem pushSingles_numbers (hcell : cell < w.heap.buffers.size) (xs : List Double) :
    pushSingles cell (xs.map .number) w =
      .ok () (w.withSingles cell (w.heap.singles (.own cell) ++ (xs.map Double.narrow).toArray)) := by
  induction xs generalizing w with
  | nil =>
    simp only [List.map_nil, Array.append_empty, withSingles_self]
    rfl
  | cons x xs ih =>
    have hstep : pushSingles cell ((x :: xs).map .number) w = pushSingles cell (xs.map .number)
        (w.withSingles cell ((w.heap.singles (.own cell)).push x.narrow)) := by
      have hfirst : pushSingles cell ((x :: xs).map .number) w =
          (update (·.modifyBuffer cell (·.push x.narrow)) >>= fun _ => pushSingles cell (xs.map .number)) w := rfl
      simp only [hfirst, bind, EStateM.bind, update_buffer]
    rw [hstep, ih (by rwa [World.withSingles, Heap.modifyBuffer, Array.size_modify]), singles_withSingles hcell,
      withSingles_withSingles, List.map_cons]
    simp

theorem floatsMethod_push (hcell : cell < w.heap.buffers.size) (xs : List Double) :
    floatsMethod call (.own cell) "push" (xs.map .number) w =
      .ok (some (.ofNat (w.heap.singles (.own cell) ++ (xs.map Double.narrow).toArray).size))
        (w.withSingles cell (w.heap.singles (.own cell) ++ (xs.map Double.narrow).toArray)) := by
  have hsteps : floatsMethod call (.own cell) "push" (xs.map .number) = (do
      pushSingles cell (xs.map .number)
      some <$> singlesSize (.own cell) : Act σ (Option Value)) := rfl
  simp only [hsteps, bind, EStateM.bind, pushSingles_numbers hcell, Functor.map, EStateM.map, singlesSize, look,
    singles_withSingles hcell]

theorem update_buffer_pure {α : Type} (f : Array Single → Array Single) (x : α) :
    (do update (·.modifyBuffer cell f); pure x : Act σ α) w =
      .ok x (w.withSingles cell (f (w.heap.singles (.own cell)))) := by
  simp only [bind, EStateM.bind, update_buffer]
  rfl

theorem floatsMethod_pop : floatsMethod call (.own cell) "pop" args w =
    .ok (some (((w.heap.singles (.own cell)).back?.map Value.ofSingle).getD .undefined))
      (w.withSingles cell (w.heap.singles (.own cell)).pop) :=
  update_buffer_pure Array.pop _

theorem floatsMethod_shift : floatsMethod call (.own cell) "shift" args w =
    .ok (some (((w.heap.singles (.own cell))[0]?.map Value.ofSingle).getD .undefined))
      (w.withSingles cell ((w.heap.singles (.own cell)).extract 1 (w.heap.singles (.own cell)).size)) :=
  update_buffer_pure (fun data => data.extract 1 data.size) _

theorem floatsMethod_fill (call : Calling σ) (cell : Nat) {x : Double} (hx : w.heap.number? (argAt args 0) = some x) :
    floatsMethod call (.own cell) "fill" args w = .ok (some (.floats (.own cell)))
      (w.withSingles cell (Array.replicate (w.heap.singles (.own cell)).size x.narrow)) := by
  have hsteps : floatsMethod call (.own cell) "fill" args = (do
      let x ← single (argAt args 0)
      update (·.modifyBuffer cell fun data => Array.replicate data.size x)
      pure (some (.floats (.own cell))) : Act σ (Option Value)) := rfl
  have hsingle : (single (argAt args 0) : Act σ Single) w = .ok x.narrow w := by
    simp only [single, number, convert, bind, EStateM.bind, hx, pure, EStateM.pure]
  simp only [hsteps, bind, EStateM.bind, hsingle]
  exact update_buffer_pure (fun data => Array.replicate data.size x.narrow) _

/-- A method without a form of its own runs on a fresh array of the numbers, and the buffer stays. -/
theorem copiedMethod_ok {name : String} {items : Array Value} {v : Value}
    (hname : name ≠ "slice" ∧ name ≠ "map" ∧ name ≠ "filter")
    (hrun : arrayMethod call w.heap.arrays.size name args
      (w.withArray ((w.heap.singles (.own cell)).map Value.ofSingle)) = .ok (some v) (w.withArray items)) :
    copiedMethod call (.own cell) name args w = .ok (some v) (w.withArray items) := by
  have hcopy : (alloc fun h => (h.arrays.size,
      { h with arrays := h.arrays.push ((h.singles (.own cell)).map Value.ofSingle) }) : Act σ Nat) w =
      .ok w.heap.arrays.size (w.withArray ((w.heap.singles (.own cell)).map Value.ofSingle)) := rfl
  simp only [copiedMethod, bind, EStateM.bind, hcopy, hrun, hname, or_self, if_false]
  rfl

end Buffer

/-- A method leaves the buffer with the numbers that it leaves the array with. -/
def SameNumbers (host : Host σ) (call : Calling σ) (w : World σ) (a b : Nat) (name : String) (args : List Value)
    (answer : Answer) : Prop :=
  ∀ what, ∃ data : Array Single,
    callMethod host call (.array a) name args what w =
      .ok (answer.on (.array a)) (w.withItems a (data.map Value.ofSingle)) ∧
    callMethod host call (.floats (.own b)) name args what w =
      .ok (answer.on (.floats (.own b))) (w.withSingles b data)

/-- A method leaves the buffer alone; the items that it leaves the array with, it gives to a new array. -/
def BufferStays (host : Host σ) (call : Calling σ) (w : World σ) (a b : Nat) (name : String) (args : List Value)
    (answer : Answer) : Prop :=
  ∀ what, ∃ items : Array Value,
    callMethod host call (.array a) name args what w = .ok (answer.on (.array a)) (w.withItems a items) ∧
    callMethod host call (.floats (.own b)) name args what w =
      .ok (answer.on (.array w.heap.arrays.size)) (w.withArray items)

section

variable {a b : Nat} {xs : List Double} (ha : a < w.heap.arrays.size)
  (hsame : w.heap.array a = (w.heap.singles (.own b)).map Value.ofSingle)

theorem SameNumbers.of_methods {name : String} {args : List Value} {answer : Answer} {data : Array Single}
    (harray : arrayMethod call a name args w =
      .ok (some (answer.on (.array a))) (w.withItems a (data.map Value.ofSingle)))
    (hbuffer : floatsMethod call (.own b) name args w =
      .ok (some (answer.on (.floats (.own b)))) (w.withSingles b data)) :
    SameNumbers host call w a b name args answer :=
  fun what => ⟨data, callMethod_of_method what rfl harray, callMethod_of_method what rfl hbuffer⟩

include ha hsame

theorem sameNumbers_push (hb : b < w.heap.buffers.size) (hxs : ∀ x ∈ xs, x.IsSingle) :
    ∃ v, SameNumbers host call w a b "push" (xs.map .number) (.value v) := by
  have hargs : xs.map Value.number = (xs.map Double.narrow).map Value.ofSingle := by
    rw [List.map_map]
    exact List.map_congr_left fun x hx => congrArg Value.number (hxs x hx).symm
  have hitems : w.heap.array a ++ (xs.map Value.number).toArray =
      (w.heap.singles (.own b) ++ (xs.map Double.narrow).toArray).map Value.ofSingle := by
    simp only [hsame, hargs, Array.map_append, List.map_toArray]
  have harray := arrayMethod_push call (xs.map .number) ha
  rw [hitems, Array.size_map] at harray
  exact ⟨_, SameNumbers.of_methods harray (floatsMethod_push hb xs)⟩

theorem sameNumbers_pop {args : List Value} : ∃ v, SameNumbers host call w a b "pop" args (.value v) := by
  have harray := arrayMethod_pop call args ha
  rw [hsame, Array.back?_map, ← Array.map_pop] at harray
  exact ⟨_, SameNumbers.of_methods harray floatsMethod_pop⟩

theorem sameNumbers_shift {args : List Value} : ∃ v, SameNumbers host call w a b "shift" args (.value v) := by
  have harray := arrayMethod_shift call args ha
  rw [hsame, Array.getElem?_map, ← Array.map_extract, Array.size_map] at harray
  exact ⟨_, SameNumbers.of_methods harray floatsMethod_shift⟩

theorem sameNumbers_fill (hxs : ∀ x ∈ xs, x.IsSingle) (hne : xs ≠ []) :
    SameNumbers host call w a b "fill" (xs.map .number) .receiver := by
  obtain ⟨x, rest, rfl⟩ := List.exists_cons_of_ne_nil hne
  have harray := arrayMethod_fill call ((x :: rest).map .number) ha
  have hx : argAt ((x :: rest).map .number) 0 = Value.ofSingle x.narrow :=
    congrArg Value.number (hxs x List.mem_cons_self).symm
  rw [hsame, hx, Array.size_map, ← Array.map_replicate] at harray
  exact SameNumbers.of_methods harray (floatsMethod_fill call b rfl)

theorem BufferStays.of_method {name : String} {args : List Value} {answer : Answer} (items : Array Value)
    (hname : name ≠ "slice" ∧ name ≠ "map" ∧ name ≠ "filter")
    (hbuffer : floatsMethod call (.own b) name args = copiedMethod call (.own b) name args)
    (hmethod : ∀ {v : World σ} {cell : Nat}, cell < v.heap.arrays.size → v.heap.array cell = w.heap.array a →
      arrayMethod call cell name args v = .ok (some (answer.on (.array cell))) (v.withItems cell items)) :
    BufferStays host call w a b name args answer := by
  -- once on the array, and once on the copy in the world that has it
  have hcopy := hmethod (v := w.withArray (w.heap.array a)) (lt_size_withArray _) (array_withArray _)
  rw [withArray_withItems, hsame] at hcopy
  refine fun what => ⟨items, callMethod_of_method what rfl (hmethod ha rfl), callMethod_of_method what rfl ?_⟩
  rw [method?, hbuffer]
  exact copiedMethod_ok hname hcopy

theorem bufferStays_unshift {args : List Value} : ∃ v, BufferStays host call w a b "unshift" args (.value v) := by
  refine ⟨.ofNat (args.toArray ++ w.heap.array a).size,
    BufferStays.of_method ha hsame (args.toArray ++ w.heap.array a) (by decide) rfl fun hcell hitems => ?_⟩
  rw [arrayMethod_unshift call args hcell, hitems]
  rfl

theorem bufferStays_reverse {args : List Value} : BufferStays host call w a b "reverse" args .receiver := by
  refine BufferStays.of_method ha hsame (w.heap.array a).reverse (by decide) rfl fun hcell hitems => ?_
  rw [arrayMethod_reverse call args hcell, hitems]
  rfl

theorem bufferStays_sort {args : List Value} (hc : (argAt args 0).isCallable = false) :
    BufferStays host call w a b "sort" args .receiver := by
  have hnumbers : w.heap.array a = (((w.heap.singles (.own b)).toList.map Single.widen).map Value.number).toArray := by
    rw [hsame, List.map_map, ← Array.toList_inj, Array.toList_map]
    rfl
  obtain ⟨ys, hys⟩ := arrayMethod_sort call hc ((w.heap.singles (.own b)).toList.map Single.widen)
  exact BufferStays.of_method ha hsame _ (by decide) rfl fun _ hitems => hys (hitems.trans hnumbers)

end

theorem isCallable_argAt_number (xs : List Double) : (argAt (xs.map Value.number) 0).isCallable = false := by
  cases xs <;> rfl

/-- On numbers that a buffer holds as they are, `push`, `pop`, `shift` and `fill` do to a buffer what they do to an array.
`unshift`, `reverse` and `sort` leave the buffer, and a `fill` with nothing fills a buffer with NaN. -/
theorem buffer_beside_array (host : Host σ) (call : Calling σ) {a b : Nat} {xs : List Double}
    (ha : a < w.heap.arrays.size) (hb : b < w.heap.buffers.size)
    (hsame : w.heap.array a = (w.heap.singles (.own b)).map Value.ofSingle) (hxs : ∀ x ∈ xs, x.IsSingle) :
    (∀ name ∈ ["push", "pop", "shift"], ∃ v, SameNumbers host call w a b name (xs.map .number) (.value v)) ∧
    (xs ≠ [] → SameNumbers host call w a b "fill" (xs.map .number) .receiver) ∧
    (∃ v, BufferStays host call w a b "unshift" (xs.map .number) (.value v)) ∧
    (∀ name ∈ ["reverse", "sort"], BufferStays host call w a b name (xs.map .number) .receiver) ∧
    ∀ what, callMethod host call (.array a) "fill" [] what w =
        .ok (.array a) (w.withItems a (Array.replicate (w.heap.array a).size .undefined)) ∧
      callMethod host call (.floats (.own b)) "fill" [] what w = .ok (.floats (.own b))
        (w.withSingles b (Array.replicate (w.heap.singles (.own b)).size Double.nan.narrow)) := by
  have harray := arrayMethod_fill call [] ha
  have hnan : w.heap.number? (argAt [] 0) = some Double.nan := rfl
  have hbuffer := floatsMethod_fill call b hnan
  refine ⟨fun name hname => ?_, sameNumbers_fill ha hsame hxs, bufferStays_unshift ha hsame, fun name hname => ?_,
    fun what => ⟨callMethod_of_method what rfl harray, callMethod_of_method what rfl hbuffer⟩⟩
  · simp only [List.mem_cons, List.not_mem_nil, or_false] at hname
    rcases hname with rfl | rfl | rfl
    · exact sameNumbers_push ha hsame hb hxs
    · exact sameNumbers_pop ha hsame
    · exact sameNumbers_shift ha hsame
  · simp only [List.mem_cons, List.not_mem_nil, or_false] at hname
    rcases hname with rfl | rfl
    · exact bufferStays_reverse ha hsame
    · exact bufferStays_sort ha hsame (isCallable_argAt_number xs)

/-- A buffer and an array of the numbers 2 and 1. -/
def twoAndOne : World Nat :=
  ⟨⟨{ arrays := #[#[.number 2, .number 1]], buffers := #[#[Double.narrow 2, Double.narrow 1]] }, 0⟩, #[], #[], 0⟩

theorem twoAndOne_same : twoAndOne.heap.array 0 = (twoAndOne.heap.singles (.own 0)).map Value.ofSingle := by decide +kernel

theorem twoAndOne_three : [(3 : Double)] ≠ [] ∧ SameNumbers .countdown (calling .countdown 1 257) twoAndOne 0 0 "fill"
    [.number 3] .receiver := by
  have hsingle : ∀ x ∈ [(3 : Double)], x.IsSingle := by
    intro x hx
    rw [List.mem_singleton.mp hx]
    unfold Double.IsSingle
    decide +kernel
  obtain ⟨-, hfill, -⟩ := buffer_beside_array .countdown (calling .countdown 1 257) (by decide) (by decide)
    twoAndOne_same hsingle
  exact ⟨by decide, hfill (by decide)⟩

theorem twoAndOne_reverse : ¬ ∃ answer, SameNumbers .countdown (calling .countdown 1 257) twoAndOne 0 0 "reverse" [] answer := by
  rintro ⟨answer, hanswer⟩
  obtain ⟨data, harray, hbuffer⟩ := hanswer "f.reverse"
  have hreversed : (twoAndOne.withItems 0 (data.map Value.ofSingle)).heap.array 0 = #[.number 1, .number 2] :=
    (congrArg (fun r => (final r).heap.array 0) harray).symm.trans (by decide +kernel)
  have hkept : (twoAndOne.withSingles 0 data).heap.singles (.own 0) = #[Double.narrow 2, Double.narrow 1] :=
    (congrArg (fun r => (final r).heap.singles (.own 0)) hbuffer).symm.trans (by decide +kernel)
  rw [array_withItems (by decide)] at hreversed
  rw [singles_withSingles (by decide)] at hkept
  rw [hkept] at hreversed
  exact absurd hreversed (by decide +kernel)

end Act

end Apiary
