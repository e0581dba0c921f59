import ProjectsCpp.Lib.Run
import ProjectsCpp.ProtoRpc.NQueens
import Mathlib.Algebra.BigOperators.Intervals

/-! The client that asks for half of the board and doubles (`nqueens/client.cc`), with the server
whose threads finish the requests in any order. A response finds its callback by the id of its
request, so it is shown with the `col` of the callback. -/

namespace ProjectsCpp.ProtoRpc.NQueens
open ProjectsCpp.Run ProjectsCpp.Words ProjectsCpp.TwosComplement

/-- `requests` are with the threads of the server, `responses` on their way back; `totals` is what
the client has logged. -/
structure Client where
  requests : List Nat
  responses : List (Nat × Int)
  g_got : Nat
  g_total : Int
  totals : List Int
deriving DecidableEq

namespace Client

def run (N : Nat) : Client := ⟨List.range ((N + 1) / 2), [], 0, 0, []⟩

def callback (N : Nat) (c : Client) (col : Nat) (count : Int) : Client :=
  let g_total :=
    if N % 2 = 1 ∧ col = N / 2 then int64 (c.g_total + count)
    else int64 (c.g_total + int64 (2 * count))
  let g_got := c.g_got + 1
  { c with
    g_got, g_total
    totals := if g_got = (N + 1) / 2 then c.totals ++ [g_total] else c.totals }

/-- `solve i`: a thread finishes the request at place `i`. -/
inductive Action where
  | solve (i : Nat)
  | receive

def step (N : Nat) (c : Client) : Action → Option Client
  | .solve i => c.requests[i]?.bind fun col => (backtrackingsub N col (-1)).map fun count =>
      { c with requests := c.requests.eraseIdx i, responses := c.responses ++ [(col, count)] }
  | .receive =>
    match c.responses with
    | [] => none
    | (col, count) :: responses => some (callback N { c with responses } col count)

def machine (N : Nat) : Machine Client Action := ⟨fun c => c = run N, step N⟩

end Client

/-! ### Both halves of the board -/

def mirror (N : Nat) (queens : List Nat) : List Nat := queens.map (N - 1 - ·)

theorem Solution.mirror {N : Nat} {queens : List Nat} (its : Solution N queens) :
    Solution N (mirror N queens) := by
  refine ⟨(List.length_map _).trans its.length, ?_, ?_⟩
  · intro c member
    obtain ⟨d, here, rfl⟩ := List.mem_map.mp member
    have := its.columns d here
    omega
  · intro r s c d less first second attacks
    rw [NQueens.mirror, List.getElem?_map] at first second
    obtain ⟨c', first', rfl⟩ := Option.map_eq_some_iff.mp first
    obtain ⟨d', second', rfl⟩ := Option.map_eq_some_iff.mp second
    have := its.columns c' (List.mem_of_getElem? first')
    have := its.columns d' (List.mem_of_getElem? second')
    refine its.peaceful r s c' d' less first' second' ?_
    unfold Attacks at *
    omega

theorem mirror_injOn (N : Nat) : Set.InjOn (mirror N) { queens | Solution N queens } := by
  have back : ∀ queens, Solution N queens → mirror N (mirror N queens) = queens := by
    intro queens its
    rw [mirror, mirror, List.map_map]
    refine (List.map_congr_left fun c member => ?_).trans (List.map_id queens)
    have := its.columns c member
    simp only [Function.comp_apply, id_eq]
    omega
  intro queens its others theirs same
  rw [← back queens its, same, back others theirs]

theorem solutions_finite {N : Nat} {placed : List Nat} (short : placed.length ≤ N)
    (start : Peaceful placed) (inside : ∀ c ∈ placed, c < N) : (solutions N placed).Finite :=
  (List.finite_toSet (completions N placed)).subset fun _ its =>
    (mem_completions short start inside).mpr its

theorem ncard_mirror {N c : Nat} (inside : c < N) :
    (solutions N [c]).ncard = (solutions N [N - 1 - c]).ncard := by
  have le (c : Nat) (inside : c < N) :
      (solutions N [c]).ncard ≤ (solutions N [N - 1 - c]).ncard := by
    refine Set.ncard_le_ncard_of_injOn (mirror N) ?_ ?_ (solutions_finite ?_ (peaceful_one _) ?_)
    · rintro _ ⟨its, rest, rfl⟩
      exact ⟨its.mirror, mirror N rest, rfl⟩
    · exact (mirror_injOn N).mono fun queens its => its.1
    · rw [List.length_singleton]
      omega
    · simp only [List.mem_singleton, forall_eq]
      omega
  refine Nat.le_antisymm (le c inside) ((le _ (by omega)).trans_eq ?_)
  rw [show N - 1 - (N - 1 - c) = c by omega]

open Finset in
theorem ncard_solutions {N : Nat} (some_ : 0 < N) :
    (solutions N []).ncard = ∑ c ∈ range N, (solutions N [c]).ncard := by
  classical
  have all : ((List.range N).filter fun i => Safe [] i) = List.range N :=
    List.filter_eq_self.mpr fun i _ => decide_eq_true (safe_nil i)
  have sum (f : Nat → Nat) : ((List.range N).map f).sum = ∑ c ∈ range N, f c := rfl
  rw [← length_completions (Nat.zero_le _) peaceful_nil (fun c member => by cases member),
    length_completions_succ some_, all, sum]
  refine sum_congr rfl fun c member => ?_
  refine length_completions some_ (peaceful_one c) ?_
  simpa using mem_range.mp member

def weight (N : Nat) (f : Nat → Nat) (col : Nat) : Nat :=
  if N % 2 = 1 ∧ col = N / 2 then f col else 2 * f col

open Finset in
theorem sum_half {N : Nat} {f : Nat → Nat} (even : ∀ c < N, f c = f (N - 1 - c)) :
    ∑ c ∈ range ((N + 1) / 2), weight N f c = ∑ c ∈ range N, f c := by
  have twice (m k : Nat) (whole : N = k + m) (half : m ≤ k) :
      ∑ c ∈ range m, f (k + c) = ∑ c ∈ range m, f c := by
    rw [← sum_range_reflect]
    refine sum_congr rfl fun c member => ?_
    have := mem_range.mp member
    rw [even c (by omega), show k + (m - 1 - c) = N - 1 - c by omega]
  have double (m : Nat) (low : m ≤ N / 2) :
      ∑ c ∈ range m, weight N f c = ∑ c ∈ range m, f c + ∑ c ∈ range m, f c := by
    rw [← sum_add_distrib]
    refine sum_congr rfl fun c member => ?_
    have := mem_range.mp member
    rw [weight, if_neg (by omega), Nat.two_mul]
  obtain ⟨m, even' | odd'⟩ := Nat.even_or_odd' N
  · rw [show (N + 1) / 2 = m by omega, double m (by omega)]
    nth_rewrite 2 [← twice m m (by omega) (Nat.le_refl m)]
    rw [← sum_range_add, show m + m = N by omega]
  · rw [show (N + 1) / 2 = m + 1 by omega, sum_range_succ, double m (by omega)]
    nth_rewrite 2 [← twice m (m + 1) (by omega) (by omega)]
    rw [weight, if_pos (by omega), Nat.add_right_comm, ← sum_range_succ, ← sum_range_add,
      show m + 1 + m = N by omega]

/-! ### Any order of the answers -/

namespace Client

variable {N : Nat} {c c' : Client}

noncomputable def ways (N col : Nat) : Nat := (solutions N [col]).ncard

/-- `handled` are the columns whose callback has run. -/
structure Kept (N : Nat) (handled : List Nat) (c : Client) : Prop where
  perm : (handled ++ (c.responses.map Prod.fst ++ c.requests)).Perm (List.range ((N + 1) / 2))
  answered : ∀ r ∈ c.responses, r.2 = ways N r.1
  got : c.g_got = handled.length
  total : c.g_total = int64 ((handled.map (weight N (ways N))).sum : Nat)
  totals : c.totals = if c.g_got = (N + 1) / 2 then [((solutions N []).ncard : Int)] else []

theorem Kept.run (some_ : 0 < N) : Kept N [] (run N) := by
  refine ⟨.refl _, ?_, rfl, (int64_eq (n := 0) (by decide)).symm, ?_⟩
  · intro r member
    cases member
  · exact (if_neg (show ¬ 0 = (N + 1) / 2 by omega)).symm

theorem Kept.sum {handled : List Nat} (kept : Kept N handled c) :
    c.g_got + (c.responses.length + c.requests.length) = (N + 1) / 2 := by
  have length := kept.perm.length_eq
  simpa [kept.got] using length

theorem Kept.answer {handled : List Nat} (kept : Kept N handled c) (size : 2 ≤ N)
    (few : N ≤ kMaxQueens) {i col : Nat} (there : c.requests[i]? = some col) :
    backtrackingsub N col (-1) = some (ways N col : Int) := by
  have member : col ∈ List.range ((N + 1) / 2) :=
    kept.perm.subset (List.mem_append_right _ (List.mem_append_right _ (List.mem_of_getElem? there)))
  have := List.mem_range.mp member
  exact backtrackingsub_first size few (by omega) (by decide)

theorem Kept.solve {handled : List Nat} (kept : Kept N handled c) (size : 2 ≤ N)
    (few : N ≤ kMaxQueens) {i : Nat} (next : c.step N (.solve i) = some c') : Kept N handled c' := by
  obtain ⟨col, there, next⟩ := Option.bind_eq_some_iff.mp next
  rw [kept.answer size few there] at next
  cases next
  refine ⟨?_, ?_, kept.got, kept.total, kept.totals⟩
  · obtain ⟨inside, rfl⟩ := List.getElem?_eq_some_iff.mp there
    refine .trans (.append_left _ ?_) kept.perm
    rw [List.map_append, List.map_singleton, List.append_assoc]
    exact .append_left _ (List.getElem_cons_eraseIdx_perm inside)
  · intro r member
    rcases List.mem_append.mp member with old | new
    · exact kept.answered r old
    · rw [List.mem_singleton.mp new]

theorem sum_handled {handled : List Nat} (some_ : 0 < N)
    (all : handled.Perm (List.range ((N + 1) / 2))) :
    (handled.map (weight N (ways N))).sum = (solutions N []).ncard := by
  rw [(all.map _).sum_eq, ncard_solutions some_]
  exact sum_half (f := ways N) fun c inside => ncard_mirror inside

theorem Kept.receive {handled : List Nat} {col : Nat} {count : Int} {rest : List (Nat × Int)}
    (kept : Kept N handled c) (some_ : 0 < N) (few : N ≤ kMaxQueens)
    (front : c.responses = (col, count) :: rest) :
    Kept N (handled ++ [col]) (callback N { c with responses := rest } col count) := by
  have perm := kept.perm
  have sum := kept.sum
  rw [front, List.length_cons] at sum
  rw [front, List.map_cons] at perm
  have its : count = ways N col := kept.answered (col, count) (front ▸ .head _)
  have total : (callback N { c with responses := rest } col count).g_total =
      int64 (((handled ++ [col]).map (weight N (ways N))).sum : Nat) := by
    simp only [callback, kept.total, its, List.map_append, List.sum_append, List.map_singleton,
      List.sum_singleton, weight]
    split <;> simp [int64, Int.add_bmod]
  refine ⟨?_, fun r member => kept.answered r (front ▸ .tail _ member), ?_, total, ?_⟩
  · rw [List.append_assoc]
    exact perm
  · rw [List.length_append, ← kept.got]
    rfl
  · have before : c.totals = [] := by
      rw [kept.totals, if_neg (show ¬ c.g_got = (N + 1) / 2 by omega)]
    simp only [callback, before, List.nil_append] at total ⊢
    by_cases last : c.g_got + 1 = (N + 1) / 2
    · have none : rest.map Prod.fst ++ c.requests = [] := by
        refine List.eq_nil_of_length_eq_zero ?_
        rw [List.length_append, List.length_map]
        omega
      have all : (handled ++ [col]).Perm (List.range ((N + 1) / 2)) := by
        rw [List.cons_append, none] at perm
        exact perm
      have bound : (solutions N []).ncard ≤ N.factorial := by
        rw [← length_completions (Nat.zero_le _) peaceful_nil (fun c member => by cases member)]
        exact length_completions_le (Nat.zero_le _) peaceful_nil fun c member => by cases member
      have small := factorial_small few
      rw [if_pos last, if_pos last, total, sum_handled some_ all, int64_eq ⟨by omega, by omega⟩]
    · rw [if_neg last, if_neg last]

theorem kept_of_reachable (size : 2 ≤ N) (few : N ≤ kMaxQueens) (reach : Reachable (machine N) c) :
    ∃ handled, Kept N handled c := by
  refine reach.invariant (P := fun c => ∃ handled, Kept N handled c) ?_ ?_
  · rintro c rfl
    exact ⟨[], .run (by omega)⟩
  · rintro c (i | _) c' ⟨handled, kept⟩ - next
    · exact ⟨handled, kept.solve size few next⟩
    · cases front : c.responses with
      | nil => simp [machine, step, front] at next
      | cons r rest =>
        simp only [machine, step, front, Option.some.injEq] at next
        exact next ▸ ⟨_, kept.receive (by omega) few front⟩

/-- Whatever order the threads of the server finish in: every request gets its answer, and when the
last response has come, and not before, the client has logged the number of the solutions, once. -/
theorem total_of_all_answers (size : 2 ≤ N) (few : N ≤ kMaxQueens)
    (reach : Reachable (machine N) c) :
    (∀ i < c.requests.length, (c.step N (.solve i)).isSome) ∧
      c.g_got + (c.responses.length + c.requests.length) = (N + 1) / 2 ∧
      c.totals = if c.g_got = (N + 1) / 2 then [((solutions N []).ncard : Int)] else [] := by
  obtain ⟨handled, kept⟩ := kept_of_reachable size few reach
  refine ⟨fun i inside => ?_, kept.sum, kept.totals⟩
  have there := List.getElem?_eq_getElem inside
  rw [step, there, Option.bind_some, kept.answer size few there]
  rfl

theorem total_of_all_answers_four : [(2 : Int)] = [((solutions 4 []).ncard : Int)] := by
  have ran : exec (machine 4) (run 4) [.solve 1, .receive, .solve 0, .receive] =
      some ⟨[], [], 2, 2, [2]⟩ := by decide +kernel
  exact (total_of_all_answers (by decide) (by decide)
    (Reach.exec (.start (M := machine 4) rfl) ran)).2.2

end Client

end ProjectsCpp.ProtoRpc.NQueens
