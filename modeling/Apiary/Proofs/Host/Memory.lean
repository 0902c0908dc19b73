import Apiary.Host.Call
import Apiary.Proofs.Script.Copied

/-!
The long-term memory of a network. It holds values as data, so what is retrieved is a copy of what was stored, and
shares nothing with it.
-/

namespace Apiary

namespace Heap

def Remembers (h : Heap) (cell : Nat) (text : String) (data : Json) : Prop :=
  ∃ n, h.networks[cell]? = some n ∧ n.remembered? text = some data

variable {h : Heap}

theorem remembers_setNetwork {cell : Nat} {n : Network} (hn : h.networks[cell]? = some n) (text : String) (data : Json) :
    (h.setNetwork cell (n.remember text data)).Remembers cell text data := by
  have hcell := (Array.getElem?_eq_some_iff.mp hn).1
  refine ⟨n.remember text data, by simp [setNetwork, hcell], ?_⟩
  rw [Network.remembered?, Network.remember, lookup_setField, if_pos rfl]

theorem showsNetwork_eq_false {v : Value} (made : ∀ u, Relation.ReflTransGen h.Holds v u → h.Storable u) (cell n : Nat) :
    h.showsNetwork cell n v = false := by
  induction n generalizing v with
  | zero =>
    cases v with
    | network => exact (made _ .refl).elim
    | _ => rfl
  | succ n ih =>
    cases v with
    | network => exact (made _ .refl).elim
    | array c =>
      refine Array.any_eq_false'.mpr fun u hu => ?_
      have hhidden := ih fun x hx => made x (.head (.item (Array.mem_toList_iff.mpr hu)) hx)
      simp [hhidden]
    | object c =>
      refine List.any_eq_false.mpr fun f hf => ?_
      have hhidden := ih fun x hx => made x (.head (.field hf) hx)
      simp [hhidden]
    | _ => rfl

end Heap

namespace Station

variable {τ : Type} {s : Store (Desk τ)} {cell : Nat} {key : Value} {text : String} {data : Json}

theorem store_ok (st : Station τ) {n : Network} {v : Value} (hn : s.heap.networks[cell]? = some n)
    (hkey : s.heap.display? key = some text) (hshows : s.heap.showsNetwork cell s.heap.depthBound v = false)
    (hdata : s.heap.json? v = some data) : st.host.call .memoryLongTermStore [.network cell, key, v] s =
      .ok .undefined ⟨s.heap.setNetwork cell (n.remember text data), s.host⟩ := by
  have hcall : st.host.call .memoryLongTermStore [.network cell, key, v] s = DeskAct.remember [.network cell, key, v] s := rfl
  simp only [hcall, DeskAct.remember, DeskAct.argAt, List.getD_cons_zero, List.getD_cons_succ, DeskAct.network?,
    HostAct.look, HostAct.display, HostAct.json, HostAct.convert, bind, EStateM.bind, hn, Option.map_some, hkey, hshows,
    Bool.false_eq_true, if_false, hdata]
  rfl

theorem retrieve_ok (st : Station τ) (h : s.heap.Remembers cell text data) (hkey : s.heap.display? key = some text) :
    st.host.call .memoryRetrieve [.network cell, key] s =
      .ok (Heap.ofJson data s.heap).1 ⟨(Heap.ofJson data s.heap).2, s.host⟩ := by
  obtain ⟨n, hn, hdata⟩ := h
  have hcall : st.host.call .memoryRetrieve [.network cell, key] s = DeskAct.retrieve [.network cell, key] s := rfl
  simp only [hcall, DeskAct.retrieve, DeskAct.argAt, List.getD_cons_zero, List.getD_cons_succ, DeskAct.network?,
    HostAct.look, HostAct.display, HostAct.convert, bind, EStateM.bind, hn, Option.map_some, hkey, hdata]
  rfl

/-- A stored value is retrieved as a copy that is made of new cells, for as long as the network remembers it. -/
theorem retrieve_gives_copy (st : Station τ) {n : Network} {v : Value} (hn : s.heap.networks[cell]? = some n)
    (hkey : s.heap.display? key = some text) (acyclic : ¬ s.heap.Circular v)
    (made : ∀ u, Relation.ReflTransGen s.heap.Holds v u → s.heap.Storable u) :
    ∃ data, s.heap.json? v = some data ∧
      (∀ g, g.Keeps (Heap.ofJson data g).2 ∧ s.heap.Copy g (Heap.ofJson data g).2 v (Heap.ofJson data g).1) ∧
      ∃ stored, st.host.call .memoryLongTermStore [.network cell, key, v] s = .ok .undefined stored ∧
        stored = ⟨s.heap.setNetwork cell (n.remember text data), s.host⟩ ∧ stored.heap.Remembers cell text data ∧
        ∀ (st' : Station τ) {later : Store (Desk τ)} {cell' : Nat} {key' : Value},
          later.heap.Remembers cell' text data → later.heap.display? key' = some text →
          ∃ u last, st'.host.call .memoryRetrieve [.network cell', key'] later = .ok u last ∧
            last.host = later.host ∧ later.heap.Keeps last.heap ∧ s.heap.Copy later.heap last.heap v u := by
  obtain ⟨data, hdata, hcopy⟩ := Heap.data_restores acyclic made
  refine ⟨data, hdata, hcopy, _, store_ok st hn hkey (Heap.showsNetwork_eq_false made cell _) hdata, rfl,
    Heap.remembers_setNetwork hn text data, fun st' later cell' key' hlater hkey' => ?_⟩
  obtain ⟨hkeeps, hcopies⟩ := hcopy later.heap
  exact ⟨_, _, retrieve_ok st' hlater hkey', rfl, hkeeps, hcopies⟩

def unheard : Station Unit where
  sink :=
    { log := fun _ => pure ()
      plot := fun _ => pure ()
      code := fun _ => pure ()
      checkpoint := fun _ => pure ()
      confirm := fun _ slot => pure slot }
  files _ := []
  clock := .still 0
  codec := .standard

/-- A network, and an array with an undefined item. -/
def holedArray : Store (Desk Unit) where
  heap :=
    { arrays := #[#[.undefined, .number 2.5, .string "a"]]
      networks := #[⟨"m", [], 0, 0, 0, [], none, 0, .ofSeed 1⟩] }
  host := ⟨.new 1 "" (.ofSeed 1), ⟨{}, ()⟩⟩

theorem holedArray_holds {v u : Value} (h : holedArray.heap.Holds v u) :
    v = .array 0 ∧ u ∈ [.undefined, .number 2.5, .string "a"] := by
  cases h with
  | @item cell u hu =>
    have hcell : cell < 1 := Heap.lt_size_of_mem_array hu
    obtain rfl : cell = 0 := by omega
    exact ⟨rfl, hu⟩
  | field hu => exact absurd (Heap.lt_size_of_mem_object hu) (Nat.not_lt_zero _)

theorem holedArray_retrieved : ∃ data stored, holedArray.heap.json? (.array 0) = some data ∧
    unheard.host.call .memoryLongTermStore [.network 0, .string "k", .array 0] holedArray = .ok .undefined stored ∧
    ∃ u last, unheard.host.call .memoryRetrieve [.network 0, .string "k"] stored = .ok u last ∧
      holedArray.heap.Copy stored.heap last.heap (.array 0) u := by
  have acyclic : ¬ holedArray.heap.Circular (.array 0) := by
    rintro ⟨u, -, hu⟩
    obtain ⟨x, hux, -⟩ := Relation.TransGen.head'_iff.mp hu
    obtain ⟨y, -, hyu⟩ := Relation.TransGen.tail'_iff.mp hu
    have hmem := (holedArray_holds hyu).2
    rw [(holedArray_holds hux).1] at hmem
    exact absurd hmem (by decide)
  have made (u : Value) (hu : Relation.ReflTransGen holedArray.heap.Holds (.array 0) u) : holedArray.heap.Storable u := by
    rcases hu.cases_tail with rfl | ⟨x, -, hx⟩
    · trivial
    · have hmem := (holedArray_holds hx).2
      simp only [List.mem_cons, List.not_mem_nil, or_false] at hmem
      rcases hmem with rfl | rfl | rfl
      · trivial
      · exact (by decide +kernel : Double.isFinite 2.5 = true)
      · trivial
  obtain ⟨n, hn⟩ : ∃ n, holedArray.heap.networks[0]? = some n := ⟨_, rfl⟩
  have hkey (h : Heap) : h.display? (.string "k") = some "k" := rfl
  obtain ⟨data, hdata, -, stored, hstored, -, hremembers, hlater⟩ :=
    retrieve_gives_copy unheard hn (hkey _) acyclic made
  obtain ⟨u, last, hu, -, -, hcopy⟩ := hlater unheard hremembers (hkey _)
  exact ⟨data, stored, hdata, hstored, u, last, hu, hcopy⟩

end Station

end Apiary
