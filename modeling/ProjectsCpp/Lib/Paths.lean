import ProjectsCpp.Lib.Text

/-! Paths read lexically: empty components and "." go, and ".." takes back the component before it. -/

namespace ProjectsCpp.Paths
open ProjectsCpp.Text

theorem fields_skip (sep : Char) (t : Str) : fields sep (sep :: t) = fields sep t := by
  rw [fields, fields, pieces, rest, scan_sep_nil]

theorem fields_glue (sep : Char) (t u : Str) :
    fields sep (t ++ sep :: u) = fields sep t ++ fields sep u := by
  induction t using split_induction sep with
  | last w clean =>
    cases w with
    | nil => exact fields_skip sep u
    | cons c w =>
      rw [fields_sep (List.cons_ne_nil c w) clean, fields_clean (List.cons_ne_nil c w) clean]
      rfl
  | next w t clean ih =>
    rw [List.append_assoc, List.cons_append]
    cases w with
    | nil => rw [List.nil_append, List.nil_append, fields_skip, fields_skip, ih]
    | cons c w =>
      rw [fields_sep (List.cons_ne_nil c w) clean, fields_sep (List.cons_ne_nil c w) clean, ih]
      rfl

/-- Where a path leads: `ups` components up from where it is read, then down the names, of which the
innermost is the first. -/
structure Place where
  absolute : Bool
  ups : Nat
  names : List Str
deriving DecidableEq

namespace Place

def enter (p : Place) (component : Str) : Place :=
  if component = ['.'] then p
  else if component = ['.', '.'] then
    match p.names with
    | _ :: names => { p with names := names }
    | [] => if p.absolute then p else { p with ups := p.ups + 1 }
  else { p with names := component :: p.names }

/-- `p` is `q` or lies below it. -/
def Below (p q : Place) : Prop := p.absolute = q.absolute ∧ p.ups = q.ups ∧ q.names <:+ p.names

instance (p q : Place) : Decidable (p.Below q) := inferInstanceAs (Decidable (_ ∧ _ ∧ _))

theorem Below.refl (p : Place) : p.Below p := ⟨rfl, rfl, List.suffix_refl _⟩

end Place

def resolve (path : Str) : Place :=
  (fields '/' path).foldl Place.enter ⟨path.head? = some '/', 0, []⟩

/-- `depth` components below their beginning, the components do not go above it. -/
def staysFrom : Nat → List Str → Bool
  | _, [] => true
  | depth, c :: cs =>
    if c = ['.'] then staysFrom depth cs
    else if c = ['.', '.'] then depth ≠ 0 && staysFrom (depth - 1) cs
    else staysFrom (depth + 1) cs

/-- How deep the components lead from `depth` components below their beginning. -/
def depthFrom : Nat → List Str → Nat
  | depth, [] => depth
  | depth, c :: cs =>
    if c = ['.'] then depthFrom depth cs
    else if c = ['.', '.'] then depthFrom (depth - 1) cs
    else depthFrom (depth + 1) cs

theorem staysFrom_append (depth : Nat) (cs ds : List Str) :
    staysFrom depth (cs ++ ds) = (staysFrom depth cs && staysFrom (depthFrom depth cs) ds) := by
  induction cs generalizing depth with
  | nil => rfl
  | cons c cs ih =>
    rw [List.cons_append, staysFrom, staysFrom, depthFrom]
    split
    · exact ih depth
    · split
      · rw [ih, Bool.and_assoc]
      · exact ih (depth + 1)

theorem staysFrom_singleton {depth : Nat} {c : Str} (name : c ≠ ['.', '.']) :
    staysFrom depth [c] = true := by
  rw [staysFrom, if_neg name, staysFrom, staysFrom, ite_self]

def Stays (text : Str) : Prop := staysFrom 0 (fields '/' text) = true

instance (text : Str) : Decidable (Stays text) := inferInstanceAs (Decidable (_ = _))

def Joins (root text : Str) : Prop :=
  text = [] ∨ root.getLast? = some '/' ∨ root ≠ [] ∧ text.head? = some '/'

instance (root text : Str) : Decidable (Joins root text) := inferInstanceAs (Decidable (_ ∨ _ ∨ _))

theorem enter_below {p q : Place} {cs : List Str} (names : List Str)
    (here : p = { q with names := names ++ q.names }) (stays : staysFrom names.length cs = true) :
    (cs.foldl Place.enter p).Below q := by
  induction cs generalizing p names with
  | nil =>
    subst here
    exact ⟨rfl, rfl, List.suffix_append names q.names⟩
  | cons c cs ih =>
    rw [List.foldl_cons]
    rw [staysFrom] at stays
    unfold Place.enter
    split at stays
    · rw [if_pos ‹_›]
      exact ih names here stays
    · rw [if_neg ‹_›]
      split at stays
      · rw [if_pos ‹_›]
        obtain ⟨some, stays⟩ := Bool.and_eq_true_iff.mp stays
        cases names with
        | nil => exact absurd rfl (of_decide_eq_true some)
        | cons n names =>
          subst here
          exact ih names rfl stays
      · rw [if_neg ‹_›]
        exact ih (c :: names) (by rw [here]; rfl) stays

theorem fields_of_joins {root text : Str} (joins : Joins root text) :
    fields '/' (root ++ text) = fields '/' root ++ fields '/' text := by
  rcases joins with rfl | last | ⟨-, first⟩
  · rw [List.append_nil]
    exact (List.append_nil _).symm
  · obtain ⟨front, rfl⟩ := List.getLast?_eq_some_iff.mp last
    rw [List.append_assoc, List.singleton_append, fields_glue, fields_glue]
    exact congrArg (· ++ fields '/' text) (List.append_nil _).symm
  · obtain ⟨rest, rfl⟩ := List.head?_eq_some_iff.mp first
    rw [fields_glue, fields_skip]

theorem resolve_below {root text : Str} (joins : Joins root text) (stays : Stays text) :
    (resolve (root ++ text)).Below (resolve root) := by
  have head : (root ++ text).head? = root.head? := by
    rcases joins with rfl | last | ⟨some, -⟩
    · rw [List.append_nil]
    · obtain ⟨front, rfl⟩ := List.getLast?_eq_some_iff.mp last
      cases front <;> rfl
    · obtain ⟨c, rest, rfl⟩ := List.exists_cons_of_ne_nil some
      rfl
  rw [resolve, fields_of_joins joins, List.foldl_append, head]
  exact enter_below [] rfl stays

end ProjectsCpp.Paths
