import Apiary.Event.Plot
import Mathlib.Data.List.Basic
import Mathlib.Data.List.Induction

/-!
A board of plots shows what was merged into it since it was last cleared: one plot for each id, with the
latest records of all its batches. Each merge caps what it keeps; together that is one cap of the whole.
-/

namespace Apiary

theorem lastItems_suffix {α : Type} (n : Nat) (xs : List α) : lastItems n xs <:+ xs := List.drop_suffix _ xs

/-- What an earlier cap dropped, a later cap drops as well. -/
theorem lastItems_lastItems_append {α : Type} (n : Nat) (xs ys : List α) :
    lastItems n (lastItems n xs ++ ys) = lastItems n (xs ++ ys) := by
  have hlength := length_lastItems n xs
  have hxs : xs.take (xs.length - n) ++ lastItems n xs = xs := List.take_append_drop _ xs
  have htaken : (xs.take (xs.length - n)).length = xs.length - n := by
    rw [List.length_take]
    omega
  calc lastItems n (lastItems n xs ++ ys)
      = (lastItems n xs ++ ys).drop (min n xs.length + ys.length - n) := by
        rw [lastItems, List.length_append, hlength]
    _ = (xs.take (xs.length - n) ++ (lastItems n xs ++ ys)).drop
          ((xs.take (xs.length - n)).length + (min n xs.length + ys.length - n)) :=
        (List.drop_length_add_append ..).symm
    _ = lastItems n (xs ++ ys) := by
        rw [← List.append_assoc, hxs, htaken, lastItems, List.length_append]
        congr 1
        omega

inductive BoardChange
  | merge (e : PlotEvent)
  | clear

namespace PlotBoard

def change (board : PlotBoard) : BoardChange → PlotBoard
  | .merge e => board.merge e
  | .clear => []

def changed (changes : List BoardChange) : PlotBoard := changes.foldl change []

def since (events : List PlotEvent) : BoardChange → List PlotEvent
  | .merge e => events ++ [e]
  | .clear => []

/-- The batches that were merged since the last clearing. -/
def sinceClear (changes : List BoardChange) : List PlotEvent := changes.foldl since []

def ids (events : List PlotEvent) : List String := events.map PlotEvent.id

def ofId (id : String) (events : List PlotEvent) : List PlotEvent := events.filter fun e => e.id = id

def history (id : String) (events : List PlotEvent) : List Json := (ofId id events).flatMap PlotEvent.data

def merged (events : List PlotEvent) : PlotBoard := events.foldl (fun board e => board.merge e) []

theorem merged_snoc (events : List PlotEvent) (e : PlotEvent) :
    merged (events ++ [e]) = (merged events).merge e := List.foldl_concat _ _ _ _

theorem changed_eq (changes : List BoardChange) : changed changes = merged (sinceClear changes) := by
  induction changes using List.reverseRecOn with
  | nil => rfl
  | append_singleton changes last ih =>
    have hboard : changed (changes ++ [last]) = (changed changes).change last := List.foldl_concat _ _ _ _
    have hevents : sinceClear (changes ++ [last]) = since (sinceClear changes) last := List.foldl_concat _ _ _ _
    rw [hboard, hevents, ih]
    cases last with
    | merge e => exact (merged_snoc _ e).symm
    | clear => rfl

theorem get?_merge (board : PlotBoard) (e : PlotEvent) (id : String) :
    (board.merge e).get? id =
      if e.id = id then some (capped (((board.get? id).map PlotEvent.data).getD []) e)
      else board.get? id := by
  induction board with
  | nil => by_cases h : e.id = id <;> simp [merge, get?, capped, h]
  | cons p rest ih =>
    by_cases hp : p.id = e.id
    · by_cases h : e.id = id <;> simp [merge, get?, capped, hp, h]
    · by_cases h : p.id = id
      · subst h
        simp only [merge, get?, if_neg hp, List.find?_cons, decide_true, if_neg (Ne.symm hp)]
      · simp only [merge, get?, if_neg hp, List.find?_cons, h, decide_false] at ih ⊢
        exact ih

theorem ids_merge (board : PlotBoard) (e : PlotEvent) :
    ids (board.merge e) = if e.id ∈ ids board then ids board else ids board ++ [e.id] := by
  induction board with
  | nil => rfl
  | cons p rest ih =>
    by_cases hp : p.id = e.id
    · simp [merge, ids, capped, hp]
    · have hmem : e.id ∈ ids (p :: rest) ↔ e.id ∈ ids rest := by simp [ids, Ne.symm hp]
      have hmerge : ids (merge e (p :: rest)) = p.id :: ids (merge e rest) := by simp [merge, ids, hp]
      rw [hmerge, ih]
      simp only [hmem]
      split <;> rfl

theorem get?_of_mem {board : PlotBoard} (h : (ids board).Nodup) {p : PlotEvent} (hp : p ∈ board) :
    board.get? p.id = some p := by
  induction board with
  | nil => cases hp
  | cons q rest ih =>
    obtain ⟨hq, hrest⟩ := List.nodup_cons.mp h
    rcases List.mem_cons.mp hp with rfl | hp
    · simp [get?]
    · have hne : q.id ≠ p.id := fun heq => hq (heq ▸ List.mem_map_of_mem hp)
      have hlater := ih hrest hp
      simp only [get?, List.find?_cons, hne, decide_false] at hlater ⊢
      exact hlater

theorem get?_merged (events : List PlotEvent) (id : String) :
    (merged events).get? id = (ofId id events).getLast?.map fun e =>
      { e with data := lastItems plotHistoryCap (history id events) } := by
  induction events using List.reverseRecOn with
  | nil => rfl
  | append_singleton events e ih =>
    rw [merged_snoc, get?_merge]
    by_cases he : e.id = id
    · have hof : ofId id (events ++ [e]) = ofId id events ++ [e] := by simp [ofId, he]
      have hkept : (((merged events).get? id).map PlotEvent.data).getD [] =
          lastItems plotHistoryCap (history id events) := by
        rw [ih]
        cases hlast : (ofId id events).getLast? with
        | none =>
          rw [history, List.getLast?_eq_none_iff.mp hlast]
          rfl
        | some e' => rfl
      have hhistory : history id (events ++ [e]) = history id events ++ e.data := by
        rw [history, hof, List.flatMap_append, List.flatMap_singleton, history]
      rw [if_pos he, hkept, hof, hhistory, List.getLast?_concat, Option.map_some, capped,
        lastItems_lastItems_append]
    · have hof : ofId id (events ++ [e]) = ofId id events := by simp [ofId, he]
      rw [if_neg he, ih, history, history, hof]

theorem ids_append (events events' : List PlotEvent) : ids (events ++ events') = ids events ++ ids events' :=
  List.map_append

theorem mem_ids_merged (events : List PlotEvent) (id : String) : id ∈ ids (merged events) ↔ id ∈ ids events := by
  induction events using List.reverseRecOn with
  | nil => exact Iff.rfl
  | append_singleton events e ih =>
    have hone : ids [e] = [e.id] := rfl
    rw [merged_snoc, ids_merge, ids_append, hone, List.mem_append, List.mem_singleton, ← ih]
    split
    · rename_i hmem
      exact ⟨.inl, fun h => h.elim (fun h => h) fun h => h ▸ hmem⟩
    · rw [List.mem_append, List.mem_singleton]

/-- The ids stand in the order in which they first occur. -/
theorem ids_merged_ordered (events : List PlotEvent) :
    (ids (merged events)).Pairwise fun i j => (ids events).idxOf i < (ids events).idxOf j := by
  induction events using List.reverseRecOn with
  | nil => exact .nil
  | append_singleton events e ih =>
    have hkept {i : String} (hi : i ∈ ids (merged events)) :
        (ids (events ++ [e])).idxOf i = (ids events).idxOf i := by
      rw [ids_append, List.idxOf_append_of_mem ((mem_ids_merged events i).mp hi)]
    have hordered : (ids (merged events)).Pairwise fun i j =>
        (ids (events ++ [e])).idxOf i < (ids (events ++ [e])).idxOf j :=
      ih.imp_of_mem fun hi hj hlt => by rwa [hkept hi, hkept hj]
    rw [merged_snoc, ids_merge]
    split
    · exact hordered
    · rename_i hnew
      refine List.pairwise_append.mpr ⟨hordered, List.pairwise_singleton _ _, fun i hi j hj => ?_⟩
      obtain rfl := List.mem_singleton.mp hj
      have hold := (mem_ids_merged events i).mp hi
      have hfresh : e.id ∉ ids events := fun hmem => hnew ((mem_ids_merged events _).mpr hmem)
      rw [hkept hi, ids_append, List.idxOf_append_of_notMem hfresh]
      exact Nat.lt_of_lt_of_le (List.idxOf_lt_length_of_mem hold) (Nat.le_add_right _ _)

theorem ids_merged_nodup (events : List PlotEvent) : (ids (merged events)).Nodup :=
  (ids_merged_ordered events).imp fun hlt heq => absurd (heq ▸ hlt) (Nat.lt_irrefl _)

/-- One plot for each id, in the order in which the ids were first seen; its data are the latest records of
all that came under the id, and all else is that of the latest batch. -/
structure Shows (events : List PlotEvent) (board : PlotBoard) : Prop where
  once : (ids board).Nodup
  seen (id : String) : id ∈ ids board ↔ ∃ e ∈ events, e.id = id
  ordered : (ids board).Pairwise fun i j => (ids events).idxOf i < (ids events).idxOf j
  latest (p : PlotEvent) : p ∈ board →
    ∃ e, (ofId p.id events).getLast? = some e ∧ p = { e with data := p.data }
  data (p : PlotEvent) : p ∈ board → p.data <:+ history p.id events ∧
    p.data.length = min 100 (history p.id events).length

theorem changed_shows (changes : List BoardChange) : Shows (sinceClear changes) (changed changes) := by
  rw [changed_eq]
  generalize sinceClear changes = events
  have hplot {p : PlotEvent} (hp : p ∈ merged events) : ∃ e, (ofId p.id events).getLast? = some e ∧
      p = { e with data := lastItems plotHistoryCap (history p.id events) } := by
    have hget := get?_of_mem (ids_merged_nodup events) hp
    rw [get?_merged, Option.map_eq_some_iff] at hget
    obtain ⟨e, he, heq⟩ := hget
    exact ⟨e, he, heq.symm⟩
  refine
    { once := ids_merged_nodup events
      seen := fun id => (mem_ids_merged events id).trans List.mem_map
      ordered := ids_merged_ordered events
      latest := fun p hp => ?_
      data := fun p hp => ?_ }
  · obtain ⟨e, he, heq⟩ := hplot hp
    exact ⟨e, he, by rw [heq]⟩
  · obtain ⟨e, -, heq⟩ := hplot hp
    have hdata : p.data = lastItems plotHistoryCap (history p.id events) := congrArg PlotEvent.data heq
    rw [hdata, length_lastItems]
    exact ⟨lastItems_suffix _ _, rfl⟩

end PlotBoard

end Apiary
