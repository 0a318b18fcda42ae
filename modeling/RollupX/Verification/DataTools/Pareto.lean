import Mathlib.Data.Set.List
import RollupX.Library.Dominance
import RollupX.Model.DataTools.Pareto

/-! Which rows the frontier has. The loops find the labels of the undominated rows for every
orientation of the two columns. -/

namespace RollupX.DataTools

open Dominance

variable {ι X Y ρ : Type*}

section Orientation

variable {V : Type*} [LinearOrder V] {minimize : Bool}

/-- At least as good in a column that is minimized or maximized. -/
def AtLeastAsGood (minimize : Bool) (a b : V) : Prop :=
  if minimize then a ≤ b else a ≥ b

instance : DecidableRel (AtLeastAsGood (V := V) minimize) :=
  fun a b => inferInstanceAs (Decidable (if minimize then a ≤ b else a ≥ b))

instance : IsPartialOrder V (AtLeastAsGood minimize) where
  refl a := by cases minimize <;> exact le_refl a
  trans a b c hab hbc := by
    cases minimize with
    | false => exact ge_trans hab hbc
    | true => exact le_trans hab hbc
  antisymm a b hab hba := by
    cases minimize with
    | false => exact ge_antisymm hab hba
    | true => exact le_antisymm hab hba

end Orientation

variable [LinearOrder X] [LinearOrder Y] {minimizeX minimizeY : Bool}

section Rows

variable (minimizeX minimizeY)

def Point.Dominates (p q : Point ι X Y) : Prop :=
  Both (AtLeastAsGood minimizeX) (AtLeastAsGood minimizeY) (p.x, p.y) (q.x, q.y)

def Row.Dominates (row row' : Row ι X Y ρ) : Prop :=
  ∃ p ∈ row.point?, ∃ q ∈ row'.point?, p.Dominates minimizeX minimizeY q

/-- The row has both values, and no row dominates it. -/
def Efficient (df : DataFrame ι X Y ρ) (row : Row ι X Y ρ) : Prop :=
  row.point?.isSome ∧ Undominated (Row.Dominates minimizeX minimizeY) df row

instance : DecidableRel (Point.Dominates (ι := ι) (X := X) (Y := Y) minimizeX minimizeY) :=
  fun p q => inferInstanceAs (Decidable (Both _ _ (p.x, p.y) (q.x, q.y)))

instance : DecidableRel (Row.Dominates (ι := ι) (X := X) (Y := Y) (ρ := ρ) minimizeX minimizeY) :=
  fun row row' => inferInstanceAs (Decidable (∃ p ∈ row.point?, ∃ q ∈ row'.point?, _))

instance (df : DataFrame ι X Y ρ) : DecidablePred (Efficient minimizeX minimizeY df) :=
  fun _ => inferInstanceAs (Decidable (_ ∧ _))

instance : IsStrictOrder (Row ι X Y ρ) (Row.Dominates minimizeX minimizeY) where
  irrefl row h := by
    obtain ⟨p, hp, q, hq, hpq⟩ := h
    cases Option.mem_unique hp hq
    exact irrefl_of (Both _ _) _ hpq
  trans row row' row'' h h' := by
    obtain ⟨p, hp, q, hq, hpq⟩ := h
    obtain ⟨q', hq', t, ht, hqt⟩ := h'
    cases Option.mem_unique hq hq'
    exact ⟨p, hp, t, ht, trans_of (Both _ _) hpq hqt⟩

end Rows

variable {df result : DataFrame ι X Y ρ} {row row' : Row ι X Y ρ}

theorem exists_efficient (hrow : row ∈ df) (hpresent : row.point?.isSome)
    (h : ¬Efficient minimizeX minimizeY df row) :
    ∃ row' ∈ df, Efficient minimizeX minimizeY df row' ∧
      row'.Dominates minimizeX minimizeY row := by
  have hdominated : ¬Undominated (Row.Dominates minimizeX minimizeY) df row :=
    fun hundominated => h ⟨hpresent, hundominated⟩
  obtain ⟨row', hrow', hundominated, hdominates⟩ := exists_undominated_of_not hrow hdominated
  obtain ⟨p, hp, hrest⟩ := hdominates
  exact ⟨row', hrow', ⟨Option.isSome_iff_exists.mpr ⟨p, hp⟩, hundominated⟩, p, hp, hrest⟩

omit [LinearOrder X] [LinearOrder Y] in
theorem label_of_point? {p : Point ι X Y} (h : row.point? = some p) : p.label = row.label := by
  unfold Row.point? at h
  split at h
  · cases h
    rfl
  · cases h

omit [LinearOrder X] [LinearOrder Y] in
theorem eq_of_label_eq (hlabels : (df.map Row.label).Nodup) (hrow : row ∈ df) (hrow' : row' ∈ df)
    (h : row.label = row'.label) : row = row' :=
  List.inj_on_of_nodup_map hlabels hrow hrow' h

section Loops

variable [DecidableEq ι]

theorem isDominated_iff (i : Point ι X Y) (points : List (Point ι X Y)) :
    isDominated minimizeX minimizeY i points = true ↔
      ∃ j ∈ points, i.label ≠ j.label ∧ j.Dominates minimizeX minimizeY i := by
  induction points with
  | nil => simp [isDominated]
  | cons j points ih =>
    rw [isDominated, List.exists_mem_cons_iff, ← ih]
    by_cases hlabel : i.label = j.label
    · simp [hlabel]
    · have htest : j.Dominates minimizeX minimizeY i ↔ _ := both_iff _ _
      cases minimizeX <;> cases minimizeY <;> simp [hlabel, htest, AtLeastAsGood, and_assoc]

theorem isDominated_points_iff (hlabels : (df.map Row.label).Nodup) (hrow : row ∈ df)
    {p : Point ι X Y} (hp : row.point? = some p) :
    isDominated minimizeX minimizeY p df.points = true ↔
      ¬Undominated (Row.Dominates minimizeX minimizeY) df row := by
  rw [isDominated_iff]
  constructor
  · rintro ⟨j, hj, -, hdominates⟩ hundominated
    obtain ⟨row', hrow', hj⟩ := List.mem_filterMap.mp hj
    exact hundominated row' hrow' ⟨j, hj, p, hp, hdominates⟩
  · intro h
    obtain ⟨row', hrow', hdominates⟩ :
        ∃ row' ∈ df, row'.Dominates minimizeX minimizeY row := by
      simpa [Undominated] using h
    have hne : row ≠ row' := by
      rintro rfl
      exact irrefl_of (Row.Dominates minimizeX minimizeY) row hdominates
    obtain ⟨j, hj, q, hq, hdominates⟩ := hdominates
    cases Option.mem_unique hp hq
    refine ⟨j, List.mem_filterMap.mpr ⟨row', hrow', hj⟩, ?_, hdominates⟩
    rw [label_of_point? hp, label_of_point? hj]
    exact fun heq => hne (eq_of_label_eq hlabels hrow hrow' heq)

theorem nonDominated_points (hlabels : (df.map Row.label).Nodup) :
    nonDominated minimizeX minimizeY df.points =
      (df.filter fun row => Efficient minimizeX minimizeY df row).map Row.label := by
  rw [nonDominated]
  nth_rewrite 2 [DataFrame.points]
  rw [List.filter_filterMap, List.map_filterMap, ← List.filterMap_eq_filter,
    List.map_filterMap]
  refine List.filterMap_congr fun row hrow => ?_
  cases hp : row.point? with
  | none => simp [Efficient, hp]
  | some p =>
    have hefficient : Efficient minimizeX minimizeY df row ↔
        ¬isDominated minimizeX minimizeY p df.points = true := by
      rw [isDominated_points_iff hlabels hrow hp, not_not, Efficient, hp]
      simp
    by_cases h : isDominated minimizeX minimizeY p df.points = true
    · simp [Option.guard, hefficient, h]
    · simp [Option.guard, hefficient, h, label_of_point? hp]

end Loops

section Loc

omit [LinearOrder X] [LinearOrder Y]
variable [DecidableEq ι] {P : Row ι X Y ρ → Bool}

omit [DecidableEq ι] in
theorem mapM_bool?_eq_some_iff {labels : List (Label ι)} {marks : List Bool} :
    labels.mapM Label.bool? = some marks ↔ labels = marks.map .bool := by
  induction labels generalizing marks with
  | nil => cases marks <;> simp
  | cons label labels ih =>
    cases label with
    | other i => cases marks <;> simp [Label.bool?]
    | bool b => cases marks <;> simp [Label.bool?, Option.bind_eq_some_iff, ih, and_comm]

theorem filter_label_eq (hlabels : (df.map Row.label).Nodup) (hrow : row ∈ df) :
    df.filter (fun row' => row'.label = row.label) = [row] := by
  refine List.perm_singleton.mp ((List.perm_ext_iff_of_nodup ?_ (List.nodup_singleton row)).mpr ?_)
  · exact hlabels.of_map.filter _
  · intro row'
    simp only [List.mem_filter, decide_eq_true_eq, List.mem_singleton]
    constructor
    · exact fun h => eq_of_label_eq hlabels h.1 hrow h.2
    · rintro rfl
      exact ⟨hrow, rfl⟩

omit [DecidableEq ι] in
theorem exists_marks_iff :
    (∃ marks ≠ [], (df.filter P).map Row.label = marks.map .bool) ↔
      (∃ row ∈ df, P row) ∧ ∀ row ∈ df, P row → ∃ b, .bool b = row.label := by
  have hrange : (df.filter P).map Row.label ∈ Set.range (List.map Label.bool) ↔
      ∀ row ∈ df, P row → ∃ b, .bool b = row.label := by
    simp only [Set.range_list_map, Set.mem_ofPred_eq, Set.mem_range, List.forall_mem_map,
      List.mem_filter, and_imp]
  rw [← hrange]
  constructor
  · rintro ⟨marks, hne, hmarks⟩
    refine ⟨?_, marks, hmarks.symm⟩
    have hselected : df.filter P ≠ [] := by
      rintro hnil
      rw [hnil] at hmarks
      exact hne (List.map_eq_nil_iff.mp hmarks.symm)
    simpa using hselected
  · rintro ⟨⟨row, hrow, hP⟩, marks, hmarks⟩
    refine ⟨marks, ?_, hmarks.symm⟩
    rintro rfl
    simpa [hP] using List.filter_eq_nil_iff.mp (List.map_eq_nil_iff.mp hmarks.symm) row hrow

/-- Unless all labels are booleans, each stands for the row that has it. -/
theorem loc_eq_filter (hlabels : (df.map Row.label).Nodup)
    (h : ∀ marks ≠ [], (df.filter P).map Row.label ≠ marks.map .bool) :
    df.loc ((df.filter P).map Row.label) = .ok (df.filter P) := by
  have hmissing : ((df.filter P).map Row.label).filter (· ∉ df.map Row.label) = [] := by
    simp only [List.filter_eq_nil_iff, List.mem_map, List.mem_filter]
    rintro _ ⟨row, ⟨hrow, -⟩, rfl⟩
    simpa using ⟨row, hrow, rfl⟩
  unfold DataFrame.loc
  split
  next mark marks hmarks => exact absurd (mapM_bool?_eq_some_iff.mp hmarks) (h _ (by simp))
  next =>
    rw [if_pos hmissing, List.flatMap_map]
    refine congrArg Except.ok ?_
    calc (df.filter P).flatMap (fun row => df.filter (·.label = row.label))
        = (df.filter P).flatMap fun row => [row] := by
          refine List.flatMap_congr fun row hrow => ?_
          exact filter_label_eq hlabels (List.mem_of_mem_filter hrow)
      _ = df.filter P := List.flatMap_singleton' _

theorem mask_labels {marks : List Bool} (h : df.map Row.label = marks.map .bool) :
    df.mask marks = df.filter (fun row => row.label = .bool true) := by
  induction df generalizing marks with
  | nil => simp [DataFrame.mask]
  | cons row df ih =>
    cases marks with
    | nil => cases h
    | cons mark marks =>
      obtain ⟨hlabel, hrest⟩ := List.cons_eq_cons.mp h
      rw [List.filter_cons, ← ih hrest, hlabel]
      cases mark <;> simp [DataFrame.mask]

/-- Where the labels of the selected rows are booleans, the rows come back only if all were
selected, and then those labelled `True`. -/
theorem loc_eq_ok_iff {marks : List Bool} (hne : marks ≠ [])
    (h : (df.filter P).map Row.label = marks.map .bool) :
    df.loc ((df.filter P).map Row.label) = .ok result ↔
      (∀ row ∈ df, P row) ∧ df.filter (fun row => row.label = .bool true) = result := by
  have hmarks := mapM_bool?_eq_some_iff.mpr h
  have hlength : marks.length = df.length ↔ ∀ row ∈ df, P row := by
    rw [← List.length_map Label.bool, ← h, List.length_map, List.length_filter_eq_length_iff]
  obtain ⟨mark, marks, rfl⟩ := List.exists_cons_of_ne_nil hne
  unfold DataFrame.loc
  simp only [hmarks, hlength]
  split
  next hall =>
    rw [List.filter_eq_self.mpr hall] at h
    rw [mask_labels h, Except.ok.injEq, and_iff_right hall]
  next hall => simp [hall]

theorem eq_singleton_of_labels (hlabels : (df.map Row.label).Nodup) (hrow : row ∈ df)
    (h : ∀ row' ∈ df, row'.label = row.label) : df = [row] := by
  rw [← filter_label_eq hlabels hrow, List.filter_eq_self.mpr (by simpa using h)]

/-- A mask selects the right rows only from a frame with one row, labelled `True`. -/
theorem exists_loc_perm_of_marks (hlabels : (df.map Row.label).Nodup) {marks : List Bool}
    (hne : marks ≠ []) (h : (df.filter P).map Row.label = marks.map .bool) :
    (∃ rows, df.loc ((df.filter P).map Row.label) = .ok rows ∧ rows.Perm (df.filter P)) ↔
      ∃ row, df = [row] ∧ row.label = .bool true := by
  obtain ⟨⟨row, hrow, hP⟩, -⟩ := exists_marks_iff.mp ⟨marks, hne, h⟩
  simp only [loc_eq_ok_iff hne h]
  constructor
  · rintro ⟨_, ⟨hall, rfl⟩, hperm⟩
    rw [List.filter_eq_self.mpr hall] at hperm
    have htrue : ∀ row' ∈ df, row'.label = .bool true := by
      intro row' hrow'
      simpa using (List.mem_filter.mp (hperm.mem_iff.mpr hrow')).2
    refine ⟨row, eq_singleton_of_labels hlabels hrow fun row' hrow' => ?_, htrue row hrow⟩
    rw [htrue row' hrow', htrue row hrow]
  · rintro ⟨row', rfl, htrue⟩
    cases List.mem_singleton.mp hrow
    simp [hP, htrue]

theorem exists_loc_perm_iff (hlabels : (df.map Row.label).Nodup) :
    (∃ rows, df.loc ((df.filter P).map Row.label) = .ok rows ∧ rows.Perm (df.filter P)) ↔
      (∃ row ∈ df, P row ∧ ∃ i, row.label = .other i) ∨ (∀ row ∈ df, ¬P row) ∨
        ∃ row, df = [row] ∧ row.label = .bool true := by
  by_cases hmask : ∃ marks ≠ [], (df.filter P).map Row.label = marks.map .bool
  · obtain ⟨⟨row, hrow, hP⟩, hbools⟩ := exists_marks_iff.mp hmask
    obtain ⟨marks, hne, hmarks⟩ := hmask
    rw [exists_loc_perm_of_marks hlabels hne hmarks, or_iff_right, or_iff_right]
    · exact fun hnone => hnone row hrow hP
    · rintro ⟨row', hrow', hP', i, hi⟩
      obtain ⟨b, hb⟩ := hbools row' hrow' hP'
      cases hb.trans hi
  · have hloc := loc_eq_filter hlabels fun marks hne hmarks => hmask ⟨marks, hne, hmarks⟩
    refine iff_of_true ⟨_, hloc, .refl _⟩ ?_
    rw [exists_marks_iff] at hmask
    by_contra! hcontra
    obtain ⟨hbools, hsome, -⟩ := hcontra
    refine hmask ⟨hsome, fun row hrow hP => ?_⟩
    cases hlabel : row.label with
    | bool b => exact ⟨b, rfl⟩
    | other i => exact absurd hlabel (hbools row hrow hP i)

end Loc

section Frontier

variable (minimizeX minimizeY)

/-- What the frontier is to be: the efficient rows, and every other row with both values is
dominated by one of them. -/
structure IsFrontier (df result : DataFrame ι X Y ρ) : Prop where
  rows : result.Perm (df.filter fun row => Efficient minimizeX minimizeY df row)
  covered : ∀ row ∈ df, row.point?.isSome → row ∉ result →
    ∃ row' ∈ result, row'.Dominates minimizeX minimizeY row

end Frontier

theorem isFrontier_iff : IsFrontier minimizeX minimizeY df result ↔
    result.Perm (df.filter fun row => Efficient minimizeX minimizeY df row) := by
  refine ⟨IsFrontier.rows, fun hrows => ⟨hrows, fun row hrow hpresent hleft => ?_⟩⟩
  have hmem : ∀ row', row' ∈ result ↔ row' ∈ df ∧ Efficient minimizeX minimizeY df row' := by
    simp [hrows.mem_iff]
  obtain ⟨row', hrow', hefficient, hdominates⟩ := exists_efficient hrow hpresent
    fun hefficient => hleft ((hmem row).mpr ⟨hrow, hefficient⟩)
  exact ⟨row', (hmem row').mpr ⟨hrow', hefficient⟩, hdominates⟩

section Complete

variable [DecidableEq ι]

theorem exists_isFrontier_iff (hlabels : (df.map Row.label).Nodup) :
    (∃ result, paretoFrontier minimizeX minimizeY df = .ok result ∧
        IsFrontier minimizeX minimizeY df result) ↔
      ∃ rows, df.loc ((df.filter fun row => Efficient minimizeX minimizeY df row).map Row.label) =
          .ok rows ∧
        rows.Perm (df.filter fun row => Efficient minimizeX minimizeY df row) := by
  simp only [isFrontier_iff, paretoFrontier, nonDominated_points hlabels]
  cases df.loc ((df.filter fun row => Efficient minimizeX minimizeY df row).map Row.label) with
  | error e => constructor <;> rintro ⟨_, h, -⟩ <;> cases h
  | ok rows =>
    have hsort : rows.sortValues.Perm rows := List.perm_insertionSort _ rows
    constructor
    · rintro ⟨_, h, hperm⟩
      cases h
      exact ⟨rows, rfl, hsort.symm.trans hperm⟩
    · rintro ⟨_, h, hperm⟩
      cases h
      exact ⟨rows.sortValues, rfl, hsort.trans hperm⟩

/-- The frontier is complete unless the undominated rows are labelled by booleans. Their labels
select the right rows only if there is one row, labelled `True`. -/
theorem paretoFrontier_complete_iff (minimizeX minimizeY : Bool) (df : DataFrame ι X Y ρ)
    (hlabels : (df.map Row.label).Nodup) :
    (∃ result, paretoFrontier minimizeX minimizeY df = .ok result ∧
        IsFrontier minimizeX minimizeY df result) ↔
      (∃ row ∈ df, Efficient minimizeX minimizeY df row ∧ ∃ i, row.label = .other i) ∨
        (∀ row ∈ df, ¬Efficient minimizeX minimizeY df row) ∨
        ∃ row, df = [row] ∧ row.label = .bool true := by
  rw [exists_isFrontier_iff hlabels, exists_loc_perm_iff hlabels]
  simp only [decide_eq_true_eq]

theorem paretoFrontier_complete_numbered :
    ∃ result,
      paretoFrontier true false (numbered [(some 3, some 4, ()), (some 2, some 4, ()),
        (none, some 9, ()), (some 1, some 2, ())]) = .ok result ∧
      IsFrontier true false (numbered [(some 3, some 4, ()), (some 2, some 4, ()),
        (none, some 9, ()), (some 1, some 2, ())]) result :=
  (paretoFrontier_complete_iff true false _ (by decide)).2
    (.inl ⟨⟨.other 1, some 2, some 4, ()⟩, by decide, by decide, 1, rfl⟩)

/-- A frame that is grouped by a boolean column. Neither row dominates the other, and only the
second comes back. -/
theorem paretoFrontier_boolLabels :
    let df : DataFrame Empty ℕ ℕ Unit :=
      [⟨.bool false, some 1, some 1, ()⟩, ⟨.bool true, some 2, some 2, ()⟩]
    (df.map Row.label).Nodup ∧ (∀ row ∈ df, Efficient true false df row) ∧
      paretoFrontier true false df = .ok [⟨.bool true, some 2, some 2, ()⟩] ∧
      ¬∃ result, paretoFrontier true false df = .ok result ∧ IsFrontier true false df result := by
  refine ⟨by decide, by decide, rfl, ?_⟩
  rintro ⟨result, hresult, hfrontier⟩
  cases hresult
  exact absurd hfrontier.rows.length_eq (by decide)

end Complete

section Sorted

omit [LinearOrder Y]

instance : Std.Total (MissingLast (X := X)) where
  total
    | none, none => .inl trivial
    | some _, none => .inl trivial
    | none, some _ => .inr trivial
    | some a, some b => le_total a b

instance : IsTrans (Option X) MissingLast where
  trans
    | _, _, none, _, _ => trivial
    | _, none, some _, _, h => h.elim
    | none, some _, some _, h, _ => h.elim
    | some _, some _, some _, h, h' => le_trans h h'

end Sorted

theorem paretoFrontier_sorted [DecidableEq ι]
    (h : paretoFrontier minimizeX minimizeY df = .ok result) :
    result.Pairwise fun row row' => MissingLast row.x row'.x := by
  have : Std.Total fun row row' : Row ι X Y ρ => MissingLast row.x row'.x :=
    ⟨fun row row' => total_of MissingLast row.x row'.x⟩
  have : IsTrans (Row ι X Y ρ) fun row row' => MissingLast row.x row'.x :=
    ⟨fun _ _ _ => trans_of MissingLast⟩
  rw [paretoFrontier] at h
  cases hloc : df.loc (nonDominated minimizeX minimizeY df.points) with
  | error e =>
    rw [hloc] at h
    cases h
  | ok rows =>
    rw [hloc] at h
    cases h
    exact List.pairwise_insertionSort _ rows

theorem IsFrontier.exists_atLeastAsGood (h : IsFrontier minimizeX minimizeY df result)
    (hrow : row ∈ df) {p : Point ι X Y} (hp : row.point? = some p) :
    ∃ row' ∈ result, ∃ q, row'.point? = some q ∧ AtLeastAsGood minimizeX q.x p.x ∧
      AtLeastAsGood minimizeY q.y p.y := by
  by_cases hmem : row ∈ result
  · exact ⟨row, hmem, p, hp, refl_of _ _, refl_of _ _⟩
  · obtain ⟨row', hrow', q, hq, p', hp', hx, hy, -⟩ := h.covered row hrow (by simp [hp]) hmem
    cases Option.mem_unique hp hp'
    exact ⟨row', hrow', q, hq, hx, hy⟩

section Plot

variable {rows : List (Option X × Option Y × ρ)}

omit [LinearOrder X] [LinearOrder Y] in
theorem numbered_cells (rows : List (Option X × Option Y × ρ)) :
    (numbered rows).map (fun row => (row.x, row.y, row.rest)) = rows := by
  simp [numbered, Function.comp_def]

omit [LinearOrder X] [LinearOrder Y] in
theorem numbered_labels (rows : List (Option X × Option Y × ρ)) :
    (numbered rows).map Row.label = (List.range' 0 rows.length).map .other := by
  rw [← List.zipIdx_map_snd, List.map_map, numbered, List.map_map]
  rfl

theorem exists_isFrontier_numbered (minimizeX minimizeY : Bool)
    (rows : List (Option X × Option Y × ρ)) :
    ∃ result, paretoFrontier minimizeX minimizeY (numbered rows) = .ok result ∧
      IsFrontier minimizeX minimizeY (numbered rows) result := by
  have hlabels : ((numbered rows).map Row.label).Nodup := by
    rw [numbered_labels]
    exact List.Nodup.map (fun _ _ => Label.other.inj) List.nodup_range'
  refine (exists_isFrontier_iff hlabels).mpr ⟨_, loc_eq_filter hlabels ?_, .refl _⟩
  intro marks hne hmarks
  obtain ⟨⟨row, hrow, hefficient⟩, hbools⟩ := exists_marks_iff.mp ⟨marks, hne, hmarks⟩
  obtain ⟨b, hb⟩ := hbools row hrow hefficient
  have hlabel := List.mem_map_of_mem (f := Row.label) hrow
  rw [numbered_labels, ← hb] at hlabel
  simp at hlabel

omit [LinearOrder X] [LinearOrder Y] in
theorem cells_of_point? {p : Point ι X Y} (h : row.point? = some p) :
    row.x = some p.x ∧ row.y = some p.y := by
  unfold Row.point? at h
  split at h
  · cases h
    exact ⟨‹_›, ‹_›⟩
  · cases h

omit [LinearOrder X] [LinearOrder Y] in
theorem map_cells (h : ∀ row ∈ df, row.point?.isSome) :
    df.map (fun row => (row.x, row.y)) = df.points.map fun p => (some p.x, some p.y) := by
  rw [DataFrame.points, List.map_filterMap, ← List.filterMap_eq_map]
  refine List.filterMap_congr fun row hrow => ?_
  obtain ⟨p, hp⟩ := Option.isSome_iff_exists.mp (h row hrow)
  obtain ⟨hx, hy⟩ := cells_of_point? hp
  simp [hp, hx, hy]

/-- On the frontier a longer latency comes with more gas saved. -/
theorem Efficient.y_le {p q : Point ι X Y} (hefficient : Efficient true false df row')
    (hrow : row ∈ df) (hp : row.point? = some p) (hq : row'.point? = some q) (hx : p.x ≤ q.x) :
    p.y ≤ q.y := by
  by_contra! hlt
  refine hefficient.2 row hrow ⟨p, hp, q, hq, hx, hlt.le, ?_⟩
  intro heq
  exact hlt.ne' (Prod.ext_iff.mp heq).2

theorem points_rise [DecidableEq ι] (h : paretoFrontier true false df = .ok result)
    (hfrontier : IsFrontier true false df result) :
    result.points.Pairwise fun p q => p.x ≤ q.x ∧ p.y ≤ q.y := by
  have hmem : ∀ row ∈ result, row ∈ df ∧ Efficient true false df row := by
    simp [hfrontier.rows.mem_iff]
  have hrise : result.Pairwise fun row row' =>
      ∀ p ∈ row.point?, ∀ q ∈ row'.point?, p.x ≤ q.x ∧ p.y ≤ q.y := by
    refine (paretoFrontier_sorted h).imp_of_mem ?_
    intro row row' hrow hrow' hsorted p hp q hq
    rw [(cells_of_point? hp).1, (cells_of_point? hq).1] at hsorted
    exact ⟨hsorted, (hmem row' hrow').2.y_le (hmem row hrow).1 hp hq hsorted⟩
  exact hrise.filterMap _ fun _ _ h => h

theorem plotPareto_eq (df : DataFrame ℕ X Y ρ) :
    plotPareto df =
      (paretoFrontier true false df).map (List.map fun row => (row.x, row.y)) := by
  rw [plotPareto]
  split
  next hempty =>
    cases List.isEmpty_iff.mp hempty
    rfl
  next => rfl

/-- The line that is plotted rises, and no experiment is better than all of its points. -/
theorem plotPareto_numbered (rows : List (Option X × Option Y × ρ)) :
    ∃ line : List (X × Y),
      plotPareto (numbered rows) = .ok (line.map fun p => (some p.1, some p.2)) ∧
        line.Pairwise (fun p q => p.1 ≤ q.1 ∧ p.2 ≤ q.2) ∧
        (∀ p ∈ line, ∃ r, (some p.1, some p.2, r) ∈ rows) ∧
        ∀ x y r, (some x, some y, r) ∈ rows → ∃ p ∈ line, p.1 ≤ x ∧ y ≤ p.2 := by
  obtain ⟨result, hresult, hfrontier⟩ := exists_isFrontier_numbered true false rows
  have hmem : ∀ row ∈ result,
      row ∈ numbered rows ∧ Efficient true false (numbered rows) row := by
    simp [hfrontier.rows.mem_iff]
  have hcells : ∀ x y r, (x, y, r) ∈ rows ↔
      ∃ row ∈ numbered rows, (row.x, row.y, row.rest) = (x, y, r) := by
    intro x y r
    rw [← List.mem_map, numbered_cells]
  refine ⟨result.points.map fun p => (p.x, p.y), ?_, ?_, ?_, ?_⟩
  · rw [plotPareto_eq, hresult, Except.map, map_cells fun row hrow => (hmem row hrow).2.1,
      List.map_map]
    rfl
  · exact List.pairwise_map.mpr (points_rise hresult hfrontier)
  · intro p hp
    obtain ⟨q, hq, rfl⟩ := List.mem_map.mp hp
    obtain ⟨row, hrow, hq⟩ := List.mem_filterMap.mp hq
    obtain ⟨hx, hy⟩ := cells_of_point? hq
    exact ⟨row.rest, (hcells _ _ _).mpr ⟨row, (hmem row hrow).1, by rw [hx, hy]⟩⟩
  · intro x y r hrow
    obtain ⟨row, hrow, heq⟩ := (hcells _ _ _).mp hrow
    have hp : row.point? = some ⟨row.label, x, y⟩ := by
      simp_all [Row.point?]
    obtain ⟨row', hrow', q, hq, hx, hy⟩ := hfrontier.exists_atLeastAsGood hrow hp
    exact ⟨(q.x, q.y), List.mem_map_of_mem (List.mem_filterMap.mpr ⟨row', hrow', hq⟩), hx, hy⟩

end Plot

end RollupX.DataTools
