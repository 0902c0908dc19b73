import Apiary.Json.Basic

/-!
Plots: a batch of data records with the axes and series to show them by, and the board that gathers the
batches of each plot up to a limit.
-/

namespace Apiary

inductive PlotKind
  | line | bar | area | scatter
  deriving DecidableEq, Repr

namespace PlotKind

def name : PlotKind → String
  | line => "line"
  | bar => "bar"
  | area => "area"
  | scatter => "scatter"

def ofName? (s : String) : Option PlotKind :=
  [line, bar, area, scatter].find? fun kind => kind.name = s

theorem ofName_name (k : PlotKind) : ofName? k.name = some k := by cases k <;> decide

end PlotKind

structure PlotSeries where
  key : String
  color : String
  name : Option String
  deriving DecidableEq, Repr

structure PlotEvent where
  id : String
  title : String
  xAxisKey : String
  yAxisLabel : Option String
  kind : PlotKind
  series : List PlotSeries
  data : List Json

def plotHistoryCap : Nat := 100

def lastItems {α : Type} (n : Nat) (xs : List α) : List α := xs.drop (xs.length - n)

theorem length_lastItems {α : Type} (n : Nat) (xs : List α) :
    (lastItems n xs).length = min n xs.length := by
  simp only [lastItems, List.length_drop]
  omega

abbrev PlotBoard := List PlotEvent

namespace PlotBoard

def capped (data : List Json) (e : PlotEvent) : PlotEvent :=
  { e with data := lastItems plotHistoryCap (data ++ e.data) }

/-- Adds a batch to the plot of its id; all fields but the data are those of the latest batch. -/
def merge (e : PlotEvent) : PlotBoard → PlotBoard
  | [] => [capped [] e]
  | p :: rest => if p.id = e.id then capped p.data e :: rest else p :: merge e rest

def get? (board : PlotBoard) (id : String) : Option PlotEvent := board.find? fun p => p.id = id

end PlotBoard

end Apiary
