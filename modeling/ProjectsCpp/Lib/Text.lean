import Mathlib.Data.List.Basic
import Mathlib.Data.List.TakeWhile
import Mathlib.Data.Option.Basic

/-! Separator-based text formats over lists of characters.
`scan` is the accumulator loop that splits at one separator and skips empty
pieces; `pieces` are the ended pieces and `rest` the unfinished end. `cutAt`
cuts at the first separator. `decimal` and `atoi` are the decimal conversions. -/

namespace ProjectsCpp.Text

abbrev Str := List Char

/-! ### Splitting -/

/-- The loop over a text with accumulator `tmp`: pieces ended by `sep`, and what is
left in the accumulator at the end. -/
def scan (sep : Char) : Str → Str → List Str × Str
  | [], tmp => ([], tmp)
  | c :: cs, tmp =>
    if c ≠ sep then scan sep cs (tmp ++ [c])
    else if tmp ≠ [] then (tmp :: (scan sep cs []).1, (scan sep cs []).2)
    else scan sep cs []

def pieces (sep : Char) (text : Str) : List Str := (scan sep text []).1

def rest (sep : Char) (text : Str) : Str := (scan sep text []).2

/-- Every non-empty piece, the unfinished one included. -/
def fields (sep : Char) (text : Str) : List Str :=
  pieces sep text ++ (if rest sep text ≠ [] then [rest sep text] else [])

variable {sep : Char} {w t tmp : Str}

theorem scan_append (clean : sep ∉ w) : scan sep (w ++ t) tmp = scan sep t (tmp ++ w) := by
  induction w generalizing tmp with
  | nil => simp
  | cons c w ih =>
    have hc : c ≠ sep := fun h => clean (by simp [h])
    have hw : sep ∉ w := fun h => clean (by simp [h])
    rw [List.cons_append, scan, if_pos hc, ih hw]
    simp

theorem scan_clean (clean : sep ∉ w) : scan sep w tmp = ([], tmp ++ w) := by
  have h : scan sep (w ++ []) tmp = scan sep [] (tmp ++ w) := scan_append clean
  simpa [scan] using h

theorem scan_sep (ne : tmp ≠ []) :
    scan sep (sep :: t) tmp = (tmp :: pieces sep t, rest sep t) := by
  simp [scan, ne, pieces, rest]

theorem scan_sep_nil : scan sep (sep :: t) [] = (pieces sep t, rest sep t) := by
  simp [scan, pieces, rest]

@[simp] theorem pieces_nil : pieces sep [] = [] := rfl

@[simp] theorem rest_nil : rest sep [] = [] := rfl

theorem pieces_clean (clean : sep ∉ w) : pieces sep w = [] := by
  simp [pieces, scan_clean clean]

theorem rest_clean (clean : sep ∉ w) : rest sep w = w := by
  simp [rest, scan_clean clean]

theorem pieces_sep (ne : w ≠ []) (clean : sep ∉ w) :
    pieces sep (w ++ sep :: t) = w :: pieces sep t := by
  rw [pieces, scan_append clean, List.nil_append, scan_sep ne]

theorem rest_sep (clean : sep ∉ w) : rest sep (w ++ sep :: t) = rest sep t := by
  rw [rest, scan_append clean, List.nil_append]
  by_cases ne : w = []
  · rw [ne, scan_sep_nil]
  · rw [scan_sep ne]

@[simp] theorem pieces_sep_nil : pieces sep (sep :: t) = pieces sep t := by
  rw [pieces, scan_sep_nil]

theorem split_first (sep : Char) (t : Str) :
    sep ∉ t ∨ ∃ w u, t = w ++ sep :: u ∧ sep ∉ w := by
  induction t with
  | nil => exact .inl (by simp)
  | cons c t ih =>
    by_cases hc : c = sep
    · exact .inr ⟨[], t, by simp [hc], by simp⟩
    · rcases ih with clean | ⟨w, u, rfl, clean⟩
      · exact .inl (by simp [Ne.symm hc, clean])
      · exact .inr ⟨c :: w, u, by simp, by simp [Ne.symm hc, clean]⟩

theorem split_induction {P : Str → Prop} (sep : Char)
    (last : ∀ w, sep ∉ w → P w)
    (next : ∀ w u, sep ∉ w → P u → P (w ++ sep :: u)) (t : Str) : P t := by
  generalize hn : t.length = n
  induction n using Nat.strong_induction_on generalizing t with
  | _ n ih =>
    rcases split_first sep t with clean | ⟨w, u, rfl, clean⟩
    · exact last t clean
    · refine next w u clean (ih u.length ?_ u rfl)
      rw [← hn, List.length_append, List.length_cons]
      omega

theorem mem_pieces {p : Str} (h : p ∈ pieces sep t) : p ≠ [] ∧ sep ∉ p := by
  induction t using split_induction sep with
  | last w clean => simp [pieces_clean clean] at h
  | next w u clean ih =>
    by_cases ne : w = []
    · rw [ne, List.nil_append, pieces_sep_nil] at h
      exact ih h
    · rw [pieces_sep ne clean, List.mem_cons] at h
      rcases h with rfl | h
      · exact ⟨ne, clean⟩
      · exact ih h

theorem pieces_subset {p : Str} (h : p ∈ pieces sep t) : p ⊆ t := by
  induction t using split_induction sep with
  | last w clean => simp [pieces_clean clean] at h
  | next w u clean ih =>
    have hu : u ⊆ w ++ sep :: u := fun c hc => by simp [hc]
    by_cases ne : w = []
    · rw [ne, List.nil_append, pieces_sep_nil] at h
      exact List.Subset.trans (ih h) hu
    · rw [pieces_sep ne clean, List.mem_cons] at h
      rcases h with rfl | h
      · exact List.subset_append_left _ _
      · exact List.Subset.trans (ih h) hu

theorem notMem_rest : sep ∉ rest sep t := by
  induction t using split_induction sep with
  | last w clean => rwa [rest_clean clean]
  | next w u clean ih => rwa [rest_sep clean]

theorem pieces_append {u : Str} (whole : rest sep t = []) :
    pieces sep (t ++ u) = pieces sep t ++ pieces sep u := by
  induction t using split_induction sep with
  | last w clean =>
    rw [rest_clean clean] at whole
    rw [whole, List.nil_append, pieces_nil, List.nil_append]
  | next w v clean ih =>
    rw [rest_sep clean] at whole
    rw [List.append_assoc, List.cons_append]
    by_cases ne : w = []
    · rw [ne, List.nil_append, List.nil_append, pieces_sep_nil, pieces_sep_nil, ih whole]
    · rw [pieces_sep ne clean, pieces_sep ne clean, ih whole, List.cons_append]

theorem rest_append {u : Str} (whole : rest sep t = []) : rest sep (t ++ u) = rest sep u := by
  induction t using split_induction sep with
  | last w clean =>
    rw [rest_clean clean] at whole
    rw [whole, List.nil_append]
  | next w v clean ih =>
    rw [rest_sep clean] at whole
    rw [List.append_assoc, List.cons_append, rest_sep clean, ih whole]

theorem notMem_scan {c : Char} (before : c ∉ tmp) (clean : c ∉ t) :
    (∀ p ∈ (scan sep t tmp).1, c ∉ p) ∧ c ∉ (scan sep t tmp).2 := by
  induction t generalizing tmp with
  | nil => exact ⟨fun p member => absurd member List.not_mem_nil, before⟩
  | cons d t ih =>
    obtain ⟨apart, clean⟩ : c ≠ d ∧ c ∉ t := by simpa using clean
    rw [scan]
    split
    · exact ih (by simp [before, apart]) clean
    · obtain ⟨pieces, last⟩ := ih List.not_mem_nil clean
      split
      · refine ⟨fun p member => ?_, last⟩
        cases List.mem_cons.mp member with
        | inl same => rwa [same]
        | inr later => exact pieces p later
      · exact ⟨pieces, last⟩

theorem mem_fields {p : Str} (member : p ∈ fields sep t) : p ≠ [] ∧ sep ∉ p := by
  rw [fields, List.mem_append] at member
  rcases member with piece | last
  · exact mem_pieces piece
  · split at last
    · rename_i some_
      cases List.mem_singleton.mp last
      exact ⟨some_, notMem_rest⟩
    · cases last

theorem notMem_fields {c : Char} (clean : c ∉ t) : ∀ p ∈ fields sep t, c ∉ p := by
  obtain ⟨inPieces, inRest⟩ : (∀ p ∈ (scan sep t []).1, c ∉ p) ∧ c ∉ (scan sep t []).2 :=
    notMem_scan List.not_mem_nil clean
  intro p member
  rw [fields, List.mem_append] at member
  rcases member with piece | last
  · exact inPieces p piece
  · split at last
    · cases List.mem_singleton.mp last
      exact inRest
    · cases last

theorem length_pieces_le (sep : Char) (t : Str) : (pieces sep t).length ≤ t.count sep := by
  induction t using split_induction sep with
  | last w clean => simp [pieces_clean clean]
  | next w u clean ih =>
    by_cases ne : w = []
    · simp only [ne, List.nil_append, pieces_sep_nil, List.count_cons_self]
      omega
    · simp only [pieces_sep ne clean, List.length_cons, List.count_append, List.count_cons_self]
      omega

/-- Words, each ended by the separator. -/
def ended (sep : Char) (ws : List Str) : Str := ws.flatMap fun w => w ++ [sep]

@[simp] theorem ended_nil : ended sep [] = [] := rfl

@[simp] theorem ended_cons (ws : List Str) :
    ended sep (w :: ws) = w ++ sep :: ended sep ws := by
  simp [ended]

theorem pieces_ended (ws : List Str) (words : ∀ w ∈ ws, w ≠ [] ∧ sep ∉ w) :
    pieces sep (ended sep ws ++ t) = ws ++ pieces sep t := by
  induction ws with
  | nil => simp
  | cons w ws ih =>
    obtain ⟨ne, clean⟩ := words w (by simp)
    rw [ended_cons, List.append_assoc, List.cons_append, pieces_sep ne clean,
      ih fun v hv => words v (by simp [hv]), List.cons_append]

theorem rest_ended (ws : List Str) (words : ∀ w ∈ ws, sep ∉ w) :
    rest sep (ended sep ws ++ t) = rest sep t := by
  induction ws with
  | nil => simp
  | cons w ws ih =>
    rw [ended_cons, List.append_assoc, List.cons_append, rest_sep (words w (by simp)),
      ih fun v hv => words v (by simp [hv])]

theorem pieces_all_ended (ws : List Str) (words : ∀ w ∈ ws, w ≠ [] ∧ sep ∉ w) :
    pieces sep (ended sep ws) = ws := by
  have split := pieces_ended (t := []) ws words
  rwa [List.append_nil, pieces_nil, List.append_nil] at split

theorem rest_all_ended (ws : List Str) (words : ∀ w ∈ ws, sep ∉ w) :
    rest sep (ended sep ws) = [] := by
  have split := rest_ended (t := []) ws words
  rwa [List.append_nil, rest_nil] at split

theorem fields_sep (ne : w ≠ []) (clean : sep ∉ w) :
    fields sep (w ++ sep :: t) = w :: fields sep t := by
  rw [fields, fields, pieces_sep ne clean, rest_sep clean, List.cons_append]

theorem fields_append (ws : List Str) (words : ∀ w ∈ ws, w ≠ [] ∧ sep ∉ w) :
    fields sep (ended sep ws ++ t) = ws ++ fields sep t := by
  rw [fields, fields, pieces_ended ws words, rest_ended ws fun w member => (words w member).2,
    List.append_assoc]

theorem fields_clean (ne : w ≠ []) (clean : sep ∉ w) : fields sep w = [w] := by
  simp [fields, pieces_clean clean, rest_clean clean, ne]

theorem length_fields_le (sep : Char) (t : Str) : (fields sep t).length ≤ t.count sep + 1 := by
  have h := length_pieces_le sep t
  rw [fields, List.length_append]
  split <;> simp <;> omega

theorem fields_ended (ws : List Str) (words : ∀ w ∈ ws, w ≠ [] ∧ sep ∉ w) :
    fields sep (ended sep ws) = ws := by
  rw [fields, pieces_all_ended ws words, rest_all_ended ws fun w member => (words w member).2,
    if_neg (not_not.mpr rfl), List.append_nil]

theorem ended_ne_nil {ws : List Str} (some : ws ≠ []) : ended sep ws ≠ [] := by
  obtain ⟨w, ws, rfl⟩ := List.exists_cons_of_ne_nil some
  rw [ended_cons]
  exact List.append_ne_nil_of_right_ne_nil _ (List.cons_ne_nil _ _)

theorem notMem_ended {c : Char} {ws : List Str} (apart : c ≠ sep) (clean : ∀ w ∈ ws, c ∉ w) :
    c ∉ ended sep ws := by
  induction ws with
  | nil => exact List.not_mem_nil
  | cons w ws ih =>
    rw [ended_cons, List.mem_append, List.mem_cons, not_or, not_or]
    exact ⟨clean w List.mem_cons_self, apart,
      ih fun v member => clean v (List.mem_cons_of_mem _ member)⟩

/-- The first ended piece, or the unfinished end when there is none. -/
def firstPiece (sep : Char) (text : Str) : Str := (pieces sep text ++ [rest sep text]).headD []

theorem notMem_firstPiece : sep ∉ firstPiece sep t := by
  rw [firstPiece]
  cases h : pieces sep t with
  | nil => exact notMem_rest
  | cons p more =>
    have first : p ∈ pieces sep t := by simp [h]
    exact (mem_pieces first).2

theorem firstPiece_clean (clean : sep ∉ w) : firstPiece sep w = w := by
  simp [firstPiece, pieces_clean clean, rest_clean clean]

theorem firstPiece_append (ne : w ≠ []) (clean : sep ∉ w) :
    firstPiece sep (w ++ t) = w ++ t.takeWhile (· ≠ sep) := by
  cases split_first sep t with
  | inl none =>
    have whole : t.takeWhile (· ≠ sep) = t := by
      rw [List.takeWhile_eq_self_iff]
      intro c inside
      simpa using fun same : c = sep => none (same ▸ inside)
    rw [firstPiece_clean (by simp [clean, none]), whole]
  | inr some =>
    obtain ⟨v, u, rfl, before⟩ := some
    have stop : (v ++ sep :: u).takeWhile (· ≠ sep) = v := by
      have past : ∀ c ∈ v, decide (c ≠ sep) = true := by
        intro c inside
        simpa using fun same : c = sep => before (same ▸ inside)
      rw [List.takeWhile_append_of_pos past]
      simp
    have ne' : w ++ v ≠ [] := by simp [ne]
    have clean' : sep ∉ w ++ v := by simp [clean, before]
    rw [stop, ← List.append_assoc, firstPiece, pieces_sep ne' clean']
    rfl

/-- A prefix of words ended by the separator holds at most as many pieces as words, and
fewer when it is a proper one. -/
theorem length_pieces_take_ended (ws : List Str) (words : ∀ w ∈ ws, sep ∉ w) (m : Nat) :
    (pieces sep ((ended sep ws).take m)).length ≤ ws.length ∧
    (m < (ended sep ws).length → (pieces sep ((ended sep ws).take m)).length < ws.length) := by
  have total : (ended sep ws).count sep = ws.length := by
    induction ws with
    | nil => rfl
    | cons w ws ih =>
      rw [ended_cons, List.count_append, List.count_cons_self, ih fun v hv => words v (by simp [hv]),
        List.count_eq_zero.mpr (words w (by simp)), List.length_cons]
      omega
  refine ⟨?_, fun proper => ?_⟩
  · calc (pieces sep ((ended sep ws).take m)).length
        ≤ ((ended sep ws).take m).count sep := length_pieces_le _ _
      _ ≤ (ended sep ws).count sep := (List.take_sublist _ _).count_le _
      _ = ws.length := total
  · -- the last character is a separator, so a proper prefix misses one
    have last : ∃ body, ended sep ws = body ++ [sep] := by
      rcases List.eq_nil_or_concat ws with rfl | ⟨ws', w, rfl⟩
      · simp at proper
      · exact ⟨ended sep ws' ++ w, by simp [ended]⟩
    obtain ⟨body, hbody⟩ := last
    have inside : List.Sublist ((ended sep ws).take m) body := by
      rw [hbody, List.length_append, List.length_singleton] at proper
      rw [hbody, List.take_append_of_le_length (by omega)]
      exact List.take_sublist _ _
    have count : body.count sep + 1 = ws.length := by
      rw [← total, hbody, List.count_append, List.count_singleton_self]
    have le := length_pieces_le sep ((ended sep ws).take m)
    have sub := inside.count_le sep
    omega

/-! ### Reading every piece -/

theorem length_of_mapM {α β : Type} {f : α → Option β} {l : List α} {l' : List β}
    (read : l.mapM f = some l') : l'.length = l.length := by
  induction l generalizing l' with
  | nil =>
    cases read
    rfl
  | cons a l ih =>
    rw [List.mapM_cons] at read
    cases ha : f a with
    | none => simp [ha] at read
    | some b =>
      cases hl : l.mapM f with
      | none => simp [ha, hl] at read
      | some bs =>
        simp only [ha, hl, Option.pure_def, Option.bind_eq_bind, Option.bind_some,
          Option.some.injEq] at read
        subst read
        simp [ih hl]

theorem mem_of_mapM {α β : Type} {f : α → Option β} {l : List α} {l' : List β} {b : β}
    (read : l.mapM f = some l') (member : b ∈ l') : ∃ a ∈ l, f a = some b := by
  induction l generalizing l' with
  | nil =>
    cases read
    cases member
  | cons a l ih =>
    rw [List.mapM_cons] at read
    cases ha : f a with
    | none => simp [ha] at read
    | some c =>
      cases hl : l.mapM f with
      | none => simp [ha, hl] at read
      | some cs =>
        simp only [ha, hl, Option.pure_def, Option.bind_eq_bind, Option.bind_some,
          Option.some.injEq] at read
        subst read
        cases List.mem_cons.mp member with
        | inl same => exact ⟨a, by simp, by rw [ha, same]⟩
        | inr later =>
          obtain ⟨x, inside, fx⟩ := ih hl later
          exact ⟨x, by simp [inside], fx⟩

theorem mapM_eq_cons {α β : Type} {f : α → Option β} {l : List α} {b : β} {bs : List β}
    (read : l.mapM f = some (b :: bs)) :
    ∃ a as, l = a :: as ∧ f a = some b ∧ as.mapM f = some bs := by
  cases l with
  | nil => cases read
  | cons a as =>
    rw [List.mapM_cons] at read
    cases ha : f a with
    | none => simp [ha] at read
    | some b' =>
      cases hl : as.mapM f with
      | none => simp [ha, hl] at read
      | some bs' =>
        simp only [ha, hl, Option.pure_def, Option.bind_eq_bind, Option.bind_some,
          Option.some.injEq, List.cons.injEq] at read
        obtain ⟨rfl, rfl⟩ := read
        exact ⟨a, as, rfl, ha, hl⟩

theorem mapM_map_some {α β γ : Type} {f : β → Option γ} {g : α → β} {h : α → γ} (l : List α)
    (reads : ∀ a ∈ l, f (g a) = some (h a)) : (l.map g).mapM f = some (l.map h) := by
  induction l with
  | nil => rfl
  | cons a l ih =>
    rw [List.map_cons, List.mapM_cons, reads a List.mem_cons_self,
      ih fun b member => reads b (List.mem_cons_of_mem _ member)]
    rfl

theorem mapM_map {α β : Type} {f : β → Option α} {g : α → β} (l : List α)
    (inverse : ∀ a ∈ l, f (g a) = some a) : (l.map g).mapM f = some l := by
  have reads := mapM_map_some (h := id) l inverse
  rwa [List.map_id] at reads

theorem mapM_eq_none {α β : Type} {f : α → Option β} {l : List α} {a : α} (member : a ∈ l)
    (stops : f a = none) : l.mapM f = none := by
  cases read : l.mapM f with
  | none => rfl
  | some bs =>
    induction l generalizing bs with
    | nil => cases member
    | cons b l ih =>
      rw [List.mapM_cons] at read
      cases fb : f b with
      | none => simp [fb] at read
      | some c =>
        cases fl : l.mapM f with
        | none => simp [fb, fl] at read
        | some cs =>
          cases List.mem_cons.mp member with
          | inl same =>
            rw [← same, stops] at fb
            cases fb
          | inr later => exact absurd (ih later cs fl) (by simp)

/-! ### Cutting at the first separator -/

/-- The part before the first separator and the part after it. -/
def cutAt (sep : Char) (text : Str) : Option (Str × Str) :=
  if sep ∈ text then
    some (text.takeWhile (· ≠ sep), (text.dropWhile (· ≠ sep)).tail)
  else none

theorem cutAt_clean (clean : sep ∉ w) : cutAt sep w = none := if_neg clean

theorem cutAt_sep (clean : sep ∉ w) : cutAt sep (w ++ sep :: t) = some (w, t) := by
  have all : ∀ c ∈ w, (decide (c ≠ sep)) = true := by
    intro c hc
    simpa using fun h : c = sep => clean (h ▸ hc)
  have take : (w ++ sep :: t).takeWhile (· ≠ sep) = w := by
    rw [List.takeWhile_append_of_pos all]
    simp
  have drop : (w ++ sep :: t).dropWhile (· ≠ sep) = sep :: t := by
    rw [List.dropWhile_append_of_pos all]
    simp
  rw [cutAt, if_pos (by simp), take, drop]
  rfl

theorem eq_of_cutAt {p q : Str} (cut : cutAt sep t = some (p, q)) :
    t = p ++ sep :: q ∧ sep ∉ p := by
  rcases split_first sep t with clean | ⟨w, u, rfl, clean⟩
  · rw [cutAt_clean clean] at cut
    cases cut
  · rw [cutAt_sep clean] at cut
    cases cut
    exact ⟨rfl, clean⟩

/-! ### Decimal numbers -/

def decimal : Int → Str
  | .ofNat n => Nat.toDigits 10 n
  | .negSucc n => '-' :: Nat.toDigits 10 (n + 1)

def isSpace (c : Char) : Bool := c = ' ' || (9 ≤ c.toNat && c.toNat ≤ 13)

/-- The C conversion: leading white space, an optional sign, then digits up to the
first other character; no digit gives 0. -/
def atoi (text : Str) : Int :=
  match text.dropWhile isSpace with
  | '-' :: digits => -(Nat.ofDigitChars 10 (digits.takeWhile Char.isDigit) 0 : Int)
  | '+' :: digits => (Nat.ofDigitChars 10 (digits.takeWhile Char.isDigit) 0 : Int)
  | digits => (Nat.ofDigitChars 10 (digits.takeWhile Char.isDigit) 0 : Int)

theorem isDigit_of_mem_toDigits {n : Nat} {c : Char} (h : c ∈ Nat.toDigits 10 n) :
    c.isDigit = true := Nat.isDigit_of_mem_toDigits (by decide) (by decide) h

theorem mem_decimal {z : Int} {c : Char} (h : c ∈ decimal z) :
    c.isDigit = true ∨ c = '-' := by
  cases z with
  | ofNat n => exact .inl (isDigit_of_mem_toDigits h)
  | negSucc n =>
    rw [decimal, List.mem_cons] at h
    rcases h with rfl | h
    · exact .inr rfl
    · exact .inl (isDigit_of_mem_toDigits h)

theorem decimal_ne_nil (z : Int) : decimal z ≠ [] := by
  cases z with
  | ofNat n => exact Nat.toDigits_ne_nil
  | negSucc n => exact List.cons_ne_nil _ _

theorem notMem_decimal (z : Int) (digit : sep.isDigit = false) (dash : sep ≠ '-') :
    sep ∉ decimal z := by
  intro h
  rcases mem_decimal h with d | d
  · rw [digit] at d
    cases d
  · exact dash d

private theorem digits_head {n : Nat} : ∃ c cs, Nat.toDigits 10 n = c :: cs ∧ c.isDigit = true := by
  cases h : Nat.toDigits 10 n with
  | nil => exact absurd h Nat.toDigits_ne_nil
  | cons c cs => exact ⟨c, cs, rfl, isDigit_of_mem_toDigits (n := n) (by simp [h])⟩

private theorem takeWhile_toDigits (n : Nat) :
    (Nat.toDigits 10 n).takeWhile Char.isDigit = Nat.toDigits 10 n :=
  List.takeWhile_eq_self_iff.mpr fun _ h => isDigit_of_mem_toDigits h

private theorem isSpace_of_isDigit {c : Char} (h : c.isDigit = true) : isSpace c = false := by
  have bounds : 48 ≤ c.toNat ∧ c.toNat ≤ 57 := by
    simpa [Char.isDigit, UInt32.le_iff_toNat_le] using h
  have hc : c ≠ ' ' := by
    rintro rfl
    exact absurd bounds.1 (by decide)
  simp [isSpace, hc]
  omega

private theorem unsigned_toDigits {β : Type} (n : Nat) (minus plus plain : Str → β) :
    (match (Nat.toDigits 10 n).dropWhile isSpace with
      | '-' :: digits => minus digits
      | '+' :: digits => plus digits
      | digits => plain digits) = plain (Nat.toDigits 10 n) := by
  obtain ⟨c, cs, digits, digit⟩ := digits_head (n := n)
  have drop : (Nat.toDigits 10 n).dropWhile isSpace = Nat.toDigits 10 n := by
    rw [digits, List.dropWhile_cons, isSpace_of_isDigit digit]
    rfl
  have notMinus : c ≠ '-' := by rintro rfl; cases digit
  have notPlus : c ≠ '+' := by rintro rfl; cases digit
  rw [drop, digits]
  split
  · rename_i heq
    exact absurd (List.cons.inj heq).1 notMinus
  · rename_i heq
    exact absurd (List.cons.inj heq).1 notPlus
  · rfl

@[simp] theorem atoi_decimal (z : Int) : atoi (decimal z) = z := by
  cases z with
  | ofNat n =>
    rw [decimal, atoi, unsigned_toDigits, takeWhile_toDigits, Nat.ofDigitChars_ten_toDigits]
    rfl
  | negSucc n =>
    have drop : ('-' :: Nat.toDigits 10 (n + 1)).dropWhile isSpace =
        '-' :: Nat.toDigits 10 (n + 1) := by
      rw [List.dropWhile_cons]
      rfl
    rw [decimal, atoi, drop]
    simp only [takeWhile_toDigits, Nat.ofDigitChars_ten_toDigits]
    rfl

/-- The C++ conversion: like `atoi`, but it throws when there is no digit. -/
def stoi (text : Str) : Option Int :=
  let unsigned := match text.dropWhile isSpace with
    | '-' :: digits => digits
    | '+' :: digits => digits
    | digits => digits
  if (unsigned.head?.map Char.isDigit).getD false then some (atoi text) else none

@[simp] theorem stoi_decimal (z : Int) : stoi (decimal z) = some z := by
  have value := atoi_decimal z
  have head : ∀ n : Nat, ((Nat.toDigits 10 n).head?.map Char.isDigit).getD false = true := by
    intro n
    obtain ⟨c, cs, digits, digit⟩ := digits_head (n := n)
    simp [digits, digit]
  cases z with
  | ofNat n =>
    have unsigned := unsigned_toDigits n (fun digits => digits) (fun digits => digits)
      fun digits => digits
    rw [decimal] at value
    rw [stoi, decimal, unsigned, if_pos (head n), value]
  | negSucc n =>
    have unsigned : (match (decimal (Int.negSucc n)).dropWhile isSpace with
        | '-' :: digits => digits
        | '+' :: digits => digits
        | digits => digits) = Nat.toDigits 10 (n + 1) := by
      rw [decimal, List.dropWhile_cons]
      rfl
    rw [stoi, unsigned, if_pos (head (n + 1)), value]

end ProjectsCpp.Text
