import Mathlib.Data.List.Sort

/-! The Pareto frontier of the experiments (`data-tools/pareto.py`). The values of the two columns
are elements of linear orders, and `none` is a missing value. Both columns have one dtype, so that
`iterrows` hands on the values as they are. -/

namespace RollupX.DataTools

/-! ## Data frames -/

/-- A row label. Booleans stand apart because `loc` reads a list of them as a mask. -/
inductive Label (ι : Type*) where
  | bool (b : Bool)
  | other (i : ι)
  deriving DecidableEq, Repr

def Label.bool? {ι : Type*} : Label ι → Option Bool
  | .bool b => some b
  | .other _ => none

/-- A row: its values in `x_col` and `y_col`, and the other columns. -/
structure Row (ι X Y ρ : Type*) where
  label : Label ι
  x : Option X
  y : Option Y
  rest : ρ
  deriving DecidableEq, Repr

abbrev DataFrame (ι X Y ρ : Type*) := List (Row ι X Y ρ)

inductive PandasError (ι : Type*) where
  | keyError (missing : List (Label ι))
  | indexError (length expected : ℕ)
  deriving DecidableEq, Repr

variable {ι X Y ρ : Type*}

section Loc

variable [DecidableEq ι]

def DataFrame.mask (df : DataFrame ι X Y ρ) (marks : List Bool) : DataFrame ι X Y ρ :=
  ((df.zip marks).filter Prod.snd).map Prod.fst

/-- `df.loc[labels]`: for each label the rows that have it. A non-empty list of booleans is a mask
instead. -/
def DataFrame.loc (df : DataFrame ι X Y ρ) (labels : List (Label ι)) :
    Except (PandasError ι) (DataFrame ι X Y ρ) :=
  match labels.mapM Label.bool? with
  | some (mark :: marks) =>
    if (mark :: marks).length = df.length then .ok (df.mask (mark :: marks))
    else .error (.indexError (mark :: marks).length df.length)
  | _ =>
    let missing := labels.filter fun label => label ∉ df.map Row.label
    if missing = [] then .ok (labels.flatMap fun label => df.filter (·.label = label))
    else .error (.keyError missing)

end Loc

section SortValues

variable [LinearOrder X]

/-- The order of a sorted column: missing values come last. -/
def MissingLast : Option X → Option X → Prop
  | _, none => True
  | none, some _ => False
  | some a, some b => a ≤ b

instance : DecidableRel (MissingLast (X := X))
  | none, none => isTrue trivial
  | some _, none => isTrue trivial
  | none, some _ => isFalse id
  | some a, some b => inferInstanceAs (Decidable (a ≤ b))

/-- `df.sort_values(x_col)`. Rows with the same value keep their order here; the source's sort
leaves it open. -/
def DataFrame.sortValues (df : DataFrame ι X Y ρ) : DataFrame ι X Y ρ :=
  df.insertionSort fun row row' => MissingLast row.x row'.x

end SortValues

/-! ## The frontier -/

/-- A row of `points`. -/
structure Point (ι X Y : Type*) where
  label : Label ι
  x : X
  y : Y
  deriving DecidableEq, Repr

def Row.point? (row : Row ι X Y ρ) : Option (Point ι X Y) :=
  match row.x, row.y with
  | some x, some y => some ⟨row.label, x, y⟩
  | _, _ => none

def DataFrame.points (df : DataFrame ι X Y ρ) : List (Point ι X Y) :=
  df.filterMap Row.point?

section Frontier

variable [DecidableEq ι] [LinearOrder X] [LinearOrder Y] (minimizeX minimizeY : Bool)

/-- The inner loop, up to its `break`. -/
def isDominated (i : Point ι X Y) : List (Point ι X Y) → Bool
  | [] => false
  | j :: points =>
    if i.label = j.label then isDominated i points
    else
      let xOk : Bool := if minimizeX then j.x ≤ i.x else j.x ≥ i.x
      let yOk : Bool := if !minimizeY then j.y ≥ i.y else j.y ≤ i.y
      let xBetter : Bool := if minimizeX then j.x < i.x else j.x > i.x
      let yBetter : Bool := if !minimizeY then j.y > i.y else j.y < i.y
      if xOk && yOk && (xBetter || yBetter) then true else isDominated i points

def nonDominated (points : List (Point ι X Y)) : List (Label ι) :=
  (points.filter fun i => !isDominated minimizeX minimizeY i points).map Point.label

def paretoFrontier (df : DataFrame ι X Y ρ) : Except (PandasError ι) (DataFrame ι X Y ρ) := do
  let rows ← df.loc (nonDominated minimizeX minimizeY df.points)
  return rows.sortValues

end Frontier

/-! ## The plot -/

/-- A frame as `pd.DataFrame(rows)` and `pd.read_csv` make it: the rows are numbered. -/
def numbered (rows : List (Option X × Option Y × ρ)) : DataFrame ℕ X Y ρ :=
  rows.zipIdx.map fun (row, n) => ⟨.other n, row.1, row.2.1, row.2.2⟩

/-- The frontier line of `plot_pareto`, where `x` is the latency and `y` the gas saved. -/
def plotPareto [LinearOrder X] [LinearOrder Y] (df : DataFrame ℕ X Y ρ) :
    Except (PandasError ℕ) (List (Option X × Option Y)) :=
  if df.isEmpty then .ok []
  else (paretoFrontier true false df).map (List.map fun row => (row.x, row.y))

end RollupX.DataTools
