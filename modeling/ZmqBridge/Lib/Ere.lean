import ZmqBridge.Lib.CMemory

/-!
# Extended regular expressions

Syntax trees of POSIX extended regular expressions over bytes, what they match,
and which strings they force every match to begin with.

An expression is matched along a *track*: positions from `0` to `last`, and the
moves between them, each over one byte. The positions of a string are one track;
all strings that leave a given key at a given place are together another one, so
one evaluation serves both.

* `Ere.Matches`  — an expression leads from one position of a track to another;
* `Ere.ends`     — the positions it leads to, computed;
* `Ere.regexec`  — a string has a match, `regexec` without sub-matches;
* `Ere.Forces`   — no way through the expression leaves the key;
* `Ere.forces_iff` — that is, every string with a match begins with the key.
-/

namespace ZmqBridge.Lib

-- ---------------------------------------------------------------------------
-- Expressions
-- ---------------------------------------------------------------------------

/-- A set of bytes, given by ranges. -/
structure ByteSet where
  negated : Bool
  ranges : List (Byte × Byte)
  deriving DecidableEq, Repr

def ByteSet.mem (s : ByteSet) (b : Byte) : Bool :=
  (s.ranges.any fun r => decide (r.1 ≤ b) && decide (b ≤ r.2)) != s.negated

/-- `rep e lo more` is `e` at least `lo` times and then up to `more` times more, or
as often as one likes. -/
inductive Ere where
  | set (s : ByteSet)
  | bol
  | eol
  | cat (a b : Ere)
  | alt (a b : Ere)
  | rep (e : Ere) (lo : Nat) (more : Option Nat)
  deriving DecidableEq, Repr

-- ---------------------------------------------------------------------------
-- Tracks
-- ---------------------------------------------------------------------------

/-- Positions `0` to `last` and the moves between them. Nothing moves back to the
start and nothing moves on from the end. -/
structure Track where
  last : Nat
  moves : Nat → List (Byte × Nat)
  moves_pos : ∀ {p b q}, (b, q) ∈ moves p → 0 < q
  moves_lt : ∀ {p b q}, (b, q) ∈ moves p → p < last
  moves_le : ∀ {p b q}, (b, q) ∈ moves p → q ≤ last

/-- The positions of a string. -/
def Track.ofString (s : List Byte) : Track where
  last := s.length
  moves p := (s[p]?.map fun b => (b, p + 1)).toList
  moves_pos {p b q} h := by
    simp only [Option.mem_toList, Option.map_eq_some_iff, Prod.mk.injEq] at h
    omega
  moves_lt {p b q} h := by
    simp only [Option.mem_toList, Option.map_eq_some_iff, Prod.mk.injEq] at h
    obtain ⟨c, hc, -⟩ := h
    exact (List.getElem?_eq_some_iff.mp hc).1
  moves_le {p b q} h := by
    simp only [Option.mem_toList, Option.map_eq_some_iff, Prod.mk.injEq] at h
    obtain ⟨c, hc, -, rfl⟩ := h
    exact (List.getElem?_eq_some_iff.mp hc).1

theorem Track.mem_ofString {s : List Byte} {p q : Nat} {b : Byte} :
    (b, q) ∈ (Track.ofString s).moves p ↔ s[p]? = some b ∧ q = p + 1 := by
  simp only [Track.ofString, Option.mem_toList, Option.map_eq_some_iff, Prod.mk.injEq]
  constructor
  · rintro ⟨c, hc, rfl, rfl⟩
    exact ⟨hc, rfl⟩
  · rintro ⟨hb, rfl⟩
    exact ⟨b, hb, rfl, rfl⟩

/-- A way along the track that reads `w`. -/
def Track.Path (T : Track) : Nat → List Byte → Nat → Prop
  | p, [], q => p = q
  | p, b :: w, q => ∃ m, (b, m) ∈ T.moves p ∧ T.Path m w q

theorem Track.Path.append {T : Track} {w v : List Byte} : ∀ {p m q : Nat},
    T.Path p w m → T.Path m v q → T.Path p (w ++ v) q := by
  induction w with
  | nil =>
    intro p m q hw hv
    cases hw
    exact hv
  | cons b w ih =>
    rintro p m q ⟨n, hn, hw⟩ hv
    exact ⟨n, hn, ih hw hv⟩

theorem Track.Path.eq_nil_of_start {T : Track} {w : List Byte} : ∀ {p : Nat},
    T.Path p w 0 → w = [] := by
  induction w with
  | nil => exact fun _ => rfl
  | cons b w ih =>
    rintro p ⟨m, hm, hw⟩
    have hNil := ih hw
    subst hNil
    cases hw
    exact absurd (T.moves_pos hm) (Nat.lt_irrefl 0)

theorem Track.Path.eq_nil_of_last {T : Track} {w : List Byte} {q : Nat}
    (h : T.Path T.last w q) : w = [] := by
  cases w with
  | nil => rfl
  | cons b w =>
    obtain ⟨m, hm, -⟩ := h
    exact absurd (T.moves_lt hm) (Nat.lt_irrefl _)

-- ---------------------------------------------------------------------------
-- Matching
-- ---------------------------------------------------------------------------

/-- `n` steps of a relation. -/
def Steps (R : Nat → Nat → Prop) : Nat → Nat → Nat → Prop
  | 0, p, q => p = q
  | n + 1, p, q => ∃ m, R p m ∧ Steps R n m q

theorem Steps.invariant {R : Nat → Nat → Prop} {P : Nat → Prop}
    (hStep : ∀ {p q}, R p q → P p → P q) {n : Nat} : ∀ {p q : Nat},
    Steps R n p q → P p → P q := by
  induction n with
  | zero =>
    intro p q h hp
    cases h
    exact hp
  | succ n ih =>
    rintro p q ⟨m, hm, h⟩ hp
    exact ih h (hStep hm hp)

theorem Steps.map {R S : Nat → Nat → Prop} {f : Nat → Nat}
    (hStep : ∀ {p q}, R p q → S (f p) (f q)) {n : Nat} : ∀ {p q : Nat},
    Steps R n p q → Steps S n (f p) (f q) := by
  induction n with
  | zero =>
    intro p q h
    cases h
    rfl
  | succ n ih =>
    rintro p q ⟨m, hm, h⟩
    exact ⟨f m, hStep hm, ih h⟩

theorem Steps.add {R : Nat → Nat → Prop} {n k : Nat} : ∀ {p q : Nat},
    Steps R (n + k) p q ↔ ∃ m, Steps R n p m ∧ Steps R k m q := by
  induction n with
  | zero =>
    intro p q
    rw [Nat.zero_add]
    constructor
    · exact fun h => ⟨p, rfl, h⟩
    · rintro ⟨m, rfl, h⟩
      exact h
  | succ n ih =>
    intro p q
    rw [Nat.succ_add]
    constructor
    · rintro ⟨m, hm, h⟩
      obtain ⟨m', hn, hk⟩ := ih.mp h
      exact ⟨m', ⟨m, hm, hn⟩, hk⟩
    · rintro ⟨m', ⟨m, hm, hn⟩, hk⟩
      exact ⟨m, hm, ih.mpr ⟨m', hn, hk⟩⟩

/-- The expression leads from one position to another. -/
def Ere.Matches (T : Track) : Ere → Nat → Nat → Prop
  | .set s, p, q => ∃ b, s.mem b = true ∧ (b, q) ∈ T.moves p
  | .bol, p, q => p = 0 ∧ q = p
  | .eol, p, q => p = T.last ∧ q = p
  | .cat a b, p, q => ∃ m, a.Matches T p m ∧ b.Matches T m q
  | .alt a b, p, q => a.Matches T p q ∨ b.Matches T p q
  | .rep e lo more, p, q =>
    ∃ n, lo ≤ n ∧ (∀ k ∈ more, n ≤ lo + k) ∧ Steps (e.Matches T) n p q

theorem Ere.Matches.le_last {T : Track} {e : Ere} : ∀ {p q : Nat},
    e.Matches T p q → p ≤ T.last → q ≤ T.last := by
  induction e with
  | set s =>
    rintro p q ⟨b, -, hMove⟩ -
    exact T.moves_le hMove
  | bol =>
    rintro p q ⟨-, rfl⟩ hp
    exact hp
  | eol =>
    rintro p q ⟨-, rfl⟩ hp
    exact hp
  | cat a b iha ihb =>
    rintro p q ⟨m, ha, hb⟩ hp
    exact ihb hb (iha ha hp)
  | alt a b iha ihb =>
    rintro p q (ha | hb) hp
    · exact iha ha hp
    · exact ihb hb hp
  | rep e lo more ih =>
    rintro p q ⟨n, -, -, hSteps⟩ hp
    exact hSteps.invariant (P := (· ≤ T.last)) ih hp

/-- What matches on a track also matches where its moves can be copied to. -/
theorem Ere.Matches.map {T U : Track} {f : Nat → Nat}
    (hMoves : ∀ {p b q}, (b, q) ∈ T.moves p → (b, f q) ∈ U.moves (f p))
    (hStart : f 0 = 0) (hLast : f T.last = U.last) {e : Ere} : ∀ {p q : Nat},
    e.Matches T p q → e.Matches U (f p) (f q) := by
  induction e with
  | set s =>
    rintro p q ⟨b, hb, hMove⟩
    exact ⟨b, hb, hMoves hMove⟩
  | bol =>
    rintro p q ⟨rfl, rfl⟩
    exact ⟨hStart, rfl⟩
  | eol =>
    rintro p q ⟨rfl, rfl⟩
    exact ⟨hLast, rfl⟩
  | cat a b iha ihb =>
    rintro p q ⟨m, ha, hb⟩
    exact ⟨f m, iha ha, ihb hb⟩
  | alt a b iha ihb =>
    rintro p q (ha | hb)
    · exact .inl (iha ha)
    · exact .inr (ihb hb)
  | rep e lo more ih =>
    rintro p q ⟨n, hLo, hMore, hSteps⟩
    exact ⟨n, hLo, hMore, Steps.map (f := f) ih hSteps⟩

/-- `w` leads from `p` to `q`, and does so with `R` in every string that goes on
from the start to `p` and from `q` to the end. -/
def Track.Realizes (T : Track) (R : List Byte → Nat → Nat → Prop) (p : Nat) (w : List Byte)
    (q : Nat) : Prop :=
  T.Path p w q ∧ ∀ pre post, T.Path 0 pre p → T.Path q post T.last →
    R (pre ++ w ++ post) pre.length (pre.length + w.length)

theorem Track.Realizes.append {T : Track} {R S Q : List Byte → Nat → Nat → Prop}
    (hQ : ∀ s p m q, R s p m → S s m q → Q s p q) {p m q : Nat} {w v : List Byte}
    (hw : T.Realizes R p w m) (hv : T.Realizes S m v q) : T.Realizes Q p (w ++ v) q := by
  refine ⟨hw.1.append hv.1, fun pre post hPre hPost => ?_⟩
  have hR := hw.2 pre (v ++ post) hPre (hv.1.append hPost)
  have hS := hv.2 (pre ++ w) post (hPre.append hw.1) hPost
  rw [List.length_append, Nat.add_assoc] at hS
  rw [List.length_append]
  refine hQ _ _ (pre.length + w.length) _ ?_ ?_
  · simpa only [List.append_assoc] using hR
  · simpa only [List.append_assoc] using hS

/-- Where the expression leads along a track, it leads in some string. -/
theorem Ere.Matches.realizes {T : Track} {e : Ere} : ∀ {p q : Nat}, e.Matches T p q →
    ∃ w, T.Realizes (fun s => e.Matches (Track.ofString s)) p w q := by
  induction e with
  | set s =>
    rintro p q ⟨b, hb, hMove⟩
    refine ⟨[b], ⟨q, hMove, rfl⟩, fun pre post _ _ => ⟨b, hb, ?_⟩⟩
    rw [Track.mem_ofString]
    simp
  | bol =>
    rintro p q ⟨rfl, rfl⟩
    refine ⟨[], rfl, fun pre post hPre _ => ?_⟩
    rw [hPre.eq_nil_of_start]
    exact ⟨rfl, rfl⟩
  | eol =>
    rintro p q ⟨rfl, rfl⟩
    refine ⟨[], rfl, fun pre post _ hPost => ?_⟩
    rw [hPost.eq_nil_of_last]
    exact ⟨by simp [Track.ofString], rfl⟩
  | cat a b iha ihb =>
    rintro p q ⟨m, ha, hb⟩
    obtain ⟨w, hw⟩ := iha ha
    obtain ⟨v, hv⟩ := ihb hb
    exact ⟨w ++ v, hw.append (fun s p m q hR hS => ⟨m, hR, hS⟩) hv⟩
  | alt a b iha ihb =>
    rintro p q (ha | hb)
    · obtain ⟨w, hPath, hw⟩ := iha ha
      exact ⟨w, hPath, fun pre post hPre hPost => .inl (hw pre post hPre hPost)⟩
    · obtain ⟨w, hPath, hw⟩ := ihb hb
      exact ⟨w, hPath, fun pre post hPre hPost => .inr (hw pre post hPre hPost)⟩
  | rep e lo more ih =>
    rintro p q ⟨n, hLo, hMore, hSteps⟩
    obtain ⟨w, hPath, hw⟩ : ∃ w,
        T.Realizes (fun s => Steps (e.Matches (Track.ofString s)) n) p w q := by
      clear hLo hMore
      induction n generalizing p with
      | zero =>
        cases hSteps
        exact ⟨[], rfl, fun pre post _ _ => rfl⟩
      | succ n ihn =>
        obtain ⟨m, hm, hSteps⟩ := hSteps
        obtain ⟨w, hw⟩ := ih hm
        obtain ⟨v, hv⟩ := ihn hSteps
        exact ⟨w ++ v, hw.append (fun s p m q hR hS => ⟨m, hR, hS⟩) hv⟩
    exact ⟨w, hPath, fun pre post hPre hPost => ⟨n, hLo, hMore, hw pre post hPre hPost⟩⟩

-- ---------------------------------------------------------------------------
-- Computing matches
-- ---------------------------------------------------------------------------

/-- The positions a set of positions leads to. -/
def Ere.ends (T : Track) : Ere → Finset Nat → Finset Nat
  | .set s, ps =>
    ps.biUnion fun p => (((T.moves p).filter fun m => s.mem m.1).map Prod.snd).toFinset
  | .bol, ps => ps.filter (· = 0)
  | .eol, ps => ps.filter (· = T.last)
  | .cat a b, ps => b.ends T (a.ends T ps)
  | .alt a b, ps => a.ends T ps ∪ b.ends T ps
  | .rep e lo more, ps =>
    -- without a bound no new position is found once every position had its turn
    (fun qs => qs ∪ e.ends T qs)^[more.getD (T.last + 1)] ((e.ends T)^[lo] ps)

section Iterate

variable {f : Finset Nat → Finset Nat} {R : Nat → Nat → Prop} {N : Nat}
  (hf : ∀ {ps : Finset Nat} {q}, (∀ p ∈ ps, p ≤ N) → (q ∈ f ps ↔ ∃ p ∈ ps, R p q))
  (hR : ∀ {p q}, R p q → p ≤ N → q ≤ N)
include hf hR

theorem le_of_mem_iterate {n : Nat} {ps : Finset Nat} (hps : ∀ p ∈ ps, p ≤ N) :
    ∀ q ∈ f^[n] ps, q ≤ N := by
  induction n generalizing ps with
  | zero => exact hps
  | succ n ih =>
    rw [Function.iterate_succ_apply]
    refine ih fun q hq => ?_
    obtain ⟨p, hp, hpq⟩ := (hf hps).mp hq
    exact hR hpq (hps p hp)

theorem mem_iterate {n : Nat} {ps : Finset Nat} (hps : ∀ p ∈ ps, p ≤ N) {q : Nat} :
    q ∈ f^[n] ps ↔ ∃ p ∈ ps, Steps R n p q := by
  induction n generalizing ps with
  | zero => simp [Steps]
  | succ n ih =>
    have hLe : ∀ q ∈ f ps, q ≤ N := le_of_mem_iterate hf hR (n := 1) hps
    rw [Function.iterate_succ_apply, ih hLe]
    constructor
    · rintro ⟨m, hm, hSteps⟩
      obtain ⟨p, hp, hpm⟩ := (hf hps).mp hm
      exact ⟨p, hp, m, hpm, hSteps⟩
    · rintro ⟨p, hp, m, hpm, hSteps⟩
      exact ⟨m, (hf hps).mpr ⟨p, hp, hpm⟩, hSteps⟩

theorem mem_grow {k : Nat} {ps : Finset Nat} (hps : ∀ p ∈ ps, p ≤ N) {q : Nat} :
    q ∈ (fun qs => qs ∪ f qs)^[k] ps ↔ ∃ n ≤ k, ∃ p ∈ ps, Steps R n p q := by
  induction k generalizing ps with
  | zero => simp [Steps]
  | succ k ih =>
    have hLe : ∀ q ∈ ps ∪ f ps, q ≤ N := by
      intro q hq
      rcases Finset.mem_union.mp hq with hq | hq
      · exact hps q hq
      · obtain ⟨p, hp, hpq⟩ := (hf hps).mp hq
        exact hR hpq (hps p hp)
    rw [Function.iterate_succ_apply, ih hLe]
    constructor
    · rintro ⟨n, hn, m, hm, hSteps⟩
      rcases Finset.mem_union.mp hm with hm | hm
      · exact ⟨n, by omega, m, hm, hSteps⟩
      · obtain ⟨p, hp, hpm⟩ := (hf hps).mp hm
        exact ⟨n + 1, by omega, p, hp, m, hpm, hSteps⟩
    · rintro ⟨n, hn, p, hp, hSteps⟩
      cases n with
      | zero => exact ⟨0, Nat.zero_le _, p, Finset.mem_union_left _ hp, hSteps⟩
      | succ n =>
        obtain ⟨m, hpm, hSteps⟩ := hSteps
        exact ⟨n, by omega, m,
          Finset.mem_union_right _ ((hf hps).mpr ⟨p, hp, hpm⟩), hSteps⟩

/-- Growing as often as there are positions finds everything. -/
theorem mem_grow_all {ps : Finset Nat} (hps : ∀ p ∈ ps, p ≤ N) {q : Nat} :
    q ∈ (fun qs => qs ∪ f qs)^[N + 1] ps ↔ ∃ n, ∃ p ∈ ps, Steps R n p q := by
  let g : Nat → Finset Nat := fun k => (fun qs => qs ∪ f qs)^[k] ps
  have hMem : ∀ {k q}, q ∈ g k ↔ ∃ n ≤ k, ∃ p ∈ ps, Steps R n p q := mem_grow hf hR hps
  have hMono : Monotone g := by
    intro j k hjk q hq
    obtain ⟨n, hn, hSteps⟩ := hMem.mp hq
    exact hMem.mpr ⟨n, hn.trans hjk, hSteps⟩
  have hCard : ∀ k, (g k).card ≤ N + 1 := by
    intro k
    refine (Finset.card_le_card fun q hq => ?_).trans_eq (Finset.card_range (N + 1))
    obtain ⟨n, -, p, hp, hSteps⟩ := hMem.mp hq
    have hq : q ≤ N := hSteps.invariant (P := (· ≤ N)) hR (hps p hp)
    exact Finset.mem_range.mpr (by omega)
  have hStable : ∀ k, N + 1 ≤ k → g k = g (N + 1) := by
    intro k hk
    have hEq : (g k).card = (g (N + 1)).card := by
      refine Nat.stabilises_of_monotone (fun i j hij => Finset.card_le_card (hMono hij)) hCard
        (fun m hm => ?_) hk
      -- a round that finds nothing leaves the next one the same set to start from
      have hSame : g m = g (m + 1) :=
        Finset.eq_of_subset_of_card_le (hMono (Nat.le_succ m)) hm.ge
      have hNext : ∀ j, g (j + 1) = g j ∪ f (g j) := fun j => by
        simp only [g, Function.iterate_succ_apply']
      have hLater : g (m + 2) = g (m + 1) := by
        rw [hNext (m + 1), ← hSame, ← hNext m, ← hSame]
      rw [hLater]
    exact (Finset.eq_of_subset_of_card_le (hMono hk) hEq.le).symm
  constructor
  · intro hq
    obtain ⟨n, -, hSteps⟩ := hMem.mp hq
    exact ⟨n, hSteps⟩
  · rintro ⟨n, hSteps⟩
    have hq : q ∈ g (max n (N + 1)) := hMem.mpr ⟨n, Nat.le_max_left _ _, hSteps⟩
    rwa [hStable _ (Nat.le_max_right _ _)] at hq

end Iterate

theorem Ere.mem_ends {T : Track} {e : Ere} {ps : Finset Nat} {q : Nat}
    (hps : ∀ p ∈ ps, p ≤ T.last) : q ∈ e.ends T ps ↔ ∃ p ∈ ps, e.Matches T p q := by
  induction e generalizing ps q with
  | set s =>
    simp only [Ere.ends, Ere.Matches, Finset.mem_biUnion, List.mem_toFinset, List.mem_map,
      List.mem_filter, Prod.exists]
    refine exists_congr fun p => and_congr_right fun _ => exists_congr fun b => ?_
    constructor
    · rintro ⟨m, ⟨hMove, hb⟩, rfl⟩
      exact ⟨hb, hMove⟩
    · rintro ⟨hb, hMove⟩
      exact ⟨q, ⟨hMove, hb⟩, rfl⟩
  | bol =>
    simp only [Ere.ends, Ere.Matches, Finset.mem_filter]
    constructor
    · rintro ⟨hq, h0⟩
      exact ⟨q, hq, h0, rfl⟩
    · rintro ⟨p, hp, h0, rfl⟩
      exact ⟨hp, h0⟩
  | eol =>
    simp only [Ere.ends, Ere.Matches, Finset.mem_filter]
    constructor
    · rintro ⟨hq, hLast⟩
      exact ⟨q, hq, hLast, rfl⟩
    · rintro ⟨p, hp, hLast, rfl⟩
      exact ⟨hp, hLast⟩
  | cat a b iha ihb =>
    have hMid : ∀ m ∈ a.ends T ps, m ≤ T.last := by
      intro m hm
      obtain ⟨p, hp, hMatch⟩ := (iha hps).mp hm
      exact hMatch.le_last (hps p hp)
    rw [Ere.ends, ihb hMid]
    constructor
    · rintro ⟨m, hm, hb⟩
      obtain ⟨p, hp, ha⟩ := (iha hps).mp hm
      exact ⟨p, hp, m, ha, hb⟩
    · rintro ⟨p, hp, m, ha, hb⟩
      exact ⟨m, (iha hps).mpr ⟨p, hp, ha⟩, hb⟩
  | alt a b iha ihb =>
    rw [Ere.ends, Finset.mem_union, iha hps, ihb hps]
    simp only [Ere.Matches, and_or_left, exists_or]
  | rep e lo more ih =>
    have hLe : ∀ m ∈ (e.ends T)^[lo] ps, m ≤ T.last :=
      le_of_mem_iterate ih Ere.Matches.le_last hps
    rw [Ere.ends]
    cases more with
    | none =>
      rw [Option.getD_none, mem_grow_all ih Ere.Matches.le_last hLe]
      constructor
      · rintro ⟨n, m, hm, hSteps⟩
        obtain ⟨p, hp, hFirst⟩ := (mem_iterate ih Ere.Matches.le_last hps).mp hm
        exact ⟨p, hp, lo + n, by omega, by simp, Steps.add.mpr ⟨m, hFirst, hSteps⟩⟩
      · rintro ⟨p, hp, n, hLo, -, hSteps⟩
        obtain ⟨k, rfl⟩ := Nat.exists_eq_add_of_le hLo
        obtain ⟨m, hFirst, hRest⟩ := Steps.add.mp hSteps
        exact ⟨k, m, (mem_iterate ih Ere.Matches.le_last hps).mpr ⟨p, hp, hFirst⟩, hRest⟩
    | some k =>
      rw [Option.getD_some, mem_grow ih Ere.Matches.le_last hLe]
      constructor
      · rintro ⟨n, hn, m, hm, hSteps⟩
        obtain ⟨p, hp, hFirst⟩ := (mem_iterate ih Ere.Matches.le_last hps).mp hm
        exact ⟨p, hp, lo + n, by omega, by simpa using hn,
          Steps.add.mpr ⟨m, hFirst, hSteps⟩⟩
      · rintro ⟨p, hp, n, hLo, hMore, hSteps⟩
        obtain ⟨j, rfl⟩ := Nat.exists_eq_add_of_le hLo
        obtain ⟨m, hFirst, hRest⟩ := Steps.add.mp hSteps
        have hj : j ≤ k := by
          have := hMore k rfl
          omega
        exact ⟨j, hj, m, (mem_iterate ih Ere.Matches.le_last hps).mpr ⟨p, hp, hFirst⟩, hRest⟩

/-- The expression matches somewhere along the track. -/
def Track.accepts (T : Track) (e : Ere) : Bool :=
  decide (e.ends T (Finset.range (T.last + 1))).Nonempty

theorem Track.accepts_iff {T : Track} {e : Ere} :
    T.accepts e = true ↔ ∃ p ≤ T.last, ∃ q, e.Matches T p q := by
  have hRange : ∀ p ∈ Finset.range (T.last + 1), p ≤ T.last := fun p hp => by
    rw [Finset.mem_range] at hp
    omega
  rw [Track.accepts, decide_eq_true_iff, Finset.Nonempty]
  constructor
  · rintro ⟨q, hq⟩
    obtain ⟨p, hp, hMatch⟩ := (Ere.mem_ends hRange).mp hq
    exact ⟨p, hRange p hp, q, hMatch⟩
  · rintro ⟨p, hp, q, hMatch⟩
    exact ⟨q, (Ere.mem_ends hRange).mpr ⟨p, Finset.mem_range.mpr (by omega), hMatch⟩⟩

/-- `regexec` with `REG_NOSUB`: the expression matches somewhere in the string. -/
def Ere.regexec (e : Ere) (s : List Byte) : Bool := (Track.ofString s).accepts e

theorem Ere.regexec_iff {e : Ere} {s : List Byte} :
    e.regexec s = true ↔ ∃ p ≤ s.length, ∃ q, e.Matches (Track.ofString s) p q :=
  Track.accepts_iff

-- ---------------------------------------------------------------------------
-- Strings that leave a key
-- ---------------------------------------------------------------------------

/-- The bytes a C string can have, other than `b`. -/
def otherBytes (b : Byte) : List Byte :=
  ((List.range 256).map UInt8.ofNat).filter fun c => c ≠ 0 ∧ c ≠ b

theorem mem_otherBytes {b c : Byte} : c ∈ otherBytes b ↔ c ≠ 0 ∧ c ≠ b := by
  simp only [otherBytes, List.mem_filter, List.mem_map, List.mem_range, decide_eq_true_eq,
    and_iff_right_iff_imp]
  exact fun _ => ⟨c.toNat, c.toNat_lt, UInt8.ofNat_toNat⟩

theorem exists_otherBytes (b : Byte) : ∃ c, c ∈ otherBytes b := by
  by_cases h : b = 1
  · exact ⟨2, mem_otherBytes.mpr ⟨by decide, by rw [h]; decide⟩⟩
  · exact ⟨1, mem_otherBytes.mpr ⟨by decide, fun h1 => h h1.symm⟩⟩

/-- The moves of `Track.leaving`. -/
def leavingMoves (key : List Byte) (d p : Nat) : List (Byte × Nat) :=
  if p < d then (key[p]?.map fun b => (b, p + 1)).toList
  else if p = d then (otherBytes (key.getD d 0)).flatMap fun b => [(b, d + 1), (b, d + 2)]
  else if p = d + 1 then (otherBytes 0).flatMap fun b => [(b, d + 1), (b, d + 2)]
  else []

theorem mem_leavingMoves {key : List Byte} {d p q : Nat} {b : Byte} :
    (b, q) ∈ leavingMoves key d p ↔
      (p < d ∧ key[p]? = some b ∧ q = p + 1) ∨
      (p = d ∧ (b ≠ 0 ∧ b ≠ key.getD d 0) ∧ (q = d + 1 ∨ q = d + 2)) ∨
      (p = d + 1 ∧ b ≠ 0 ∧ (q = d + 1 ∨ q = d + 2)) := by
  have hPair : ∀ {bs : List Byte}, (b, q) ∈ bs.flatMap (fun b => [(b, d + 1), (b, d + 2)]) ↔
      b ∈ bs ∧ (q = d + 1 ∨ q = d + 2) := by
    intro bs
    simp only [List.mem_flatMap, List.mem_cons, Prod.mk.injEq, List.not_mem_nil, or_false]
    constructor
    · rintro ⟨c, hc, ⟨rfl, rfl⟩ | ⟨rfl, rfl⟩⟩
      · exact ⟨hc, .inl rfl⟩
      · exact ⟨hc, .inr rfl⟩
    · rintro ⟨hb, rfl | rfl⟩
      · exact ⟨b, hb, .inl ⟨rfl, rfl⟩⟩
      · exact ⟨b, hb, .inr ⟨rfl, rfl⟩⟩
  rw [leavingMoves]
  split
  · rename_i hp
    simp only [Option.mem_toList, Option.map_eq_some_iff, Prod.mk.injEq]
    constructor
    · rintro ⟨c, hc, rfl, rfl⟩
      exact .inl ⟨hp, hc, rfl⟩
    · rintro (⟨-, hb, rfl⟩ | ⟨rfl, -⟩ | ⟨rfl, -⟩)
      · exact ⟨b, hb, rfl, rfl⟩
      · omega
      · omega
  · split
    · rw [hPair, mem_otherBytes]
      constructor
      · exact fun h => .inr (.inl ⟨by assumption, h⟩)
      · rintro (⟨hp, -⟩ | ⟨-, h⟩ | ⟨hp, -⟩)
        · omega
        · exact h
        · omega
    · split
      · rw [hPair, mem_otherBytes]
        constructor
        · exact fun h => .inr (.inr ⟨by assumption, h.1.1, h.2⟩)
        · rintro (⟨hp, -⟩ | ⟨hp, -⟩ | ⟨-, h⟩)
          · omega
          · omega
          · exact ⟨⟨h.1, h.1⟩, h.2⟩
      · constructor
        · exact fun h => by cases h
        · omega

/-- All strings that agree with the key in front of position `d` and have another
byte there. Behind it only two positions are told apart, `d + 1` inside the string
and `d + 2` at its end. -/
def Track.leaving (key : List Byte) (d : Nat) : Track where
  last := d + 2
  moves := leavingMoves key d
  moves_pos h := by
    have := mem_leavingMoves.mp h
    omega
  moves_lt h := by
    have := mem_leavingMoves.mp h
    omega
  moves_le h := by
    have := mem_leavingMoves.mp h
    omega

/-- Where a position of such a string is on the track. -/
def leavingPos (d len p : Nat) : Nat :=
  if p ≤ d then p else if p < len then d + 1 else d + 2

theorem leavingPos_of_le {d len p : Nat} (h : p ≤ d) : leavingPos d len p = p :=
  if_pos h

theorem leavingPos_inside {d len p : Nat} (h : d < p) (hp : p < len) :
    leavingPos d len p = d + 1 := by
  rw [leavingPos, if_neg (by omega), if_pos hp]

theorem leavingPos_end {d len p : Nat} (h : d < p) (hp : len ≤ p) :
    leavingPos d len p = d + 2 := by
  rw [leavingPos, if_neg (by omega), if_neg (by omega)]

theorem leavingPos_behind {d len p : Nat} (h : d < p) :
    leavingPos d len p = d + 1 ∨ leavingPos d len p = d + 2 := by
  by_cases hp : p < len
  · exact .inl (leavingPos_inside h hp)
  · exact .inr (leavingPos_end h (by omega))

section Leaving

variable {key : List Byte} {d : Nat} {e : Ere}

/-- A string that leaves the key goes along the track. -/
theorem Ere.Matches.leaving {c : Byte} {t : List Byte} (hd : d < key.length)
    (hc : c ≠ key.getD d 0) (hFree : NulFree (c :: t)) {p q : Nat}
    (h : e.Matches (Track.ofString (key.take d ++ c :: t)) p q) :
    e.Matches (Track.leaving key d) (leavingPos d (d + 1 + t.length) p)
      (leavingPos d (d + 1 + t.length) q) := by
  have hTake : (key.take d).length = d := by simp; omega
  have hLast : (Track.ofString (key.take d ++ c :: t)).last = d + 1 + t.length := by
    simp only [Track.ofString, List.length_append, hTake, List.length_cons]
    omega
  refine h.map ?_ (leavingPos_of_le (Nat.zero_le d)) ?_
  · intro p b q hMove
    obtain ⟨hb, rfl⟩ := Track.mem_ofString.mp hMove
    refine mem_leavingMoves.mpr ?_
    rw [nulFree_cons] at hFree
    rcases Nat.lt_trichotomy p d with hp | rfl | hp
    · -- still along the key
      rw [List.getElem?_append_left (by omega), List.getElem?_take_of_lt hp] at hb
      rw [leavingPos_of_le hp.le, leavingPos_of_le hp]
      exact .inl ⟨hp, hb, rfl⟩
    · -- the byte that leaves it
      rw [List.getElem?_append_right (by omega), hTake, Nat.sub_self] at hb
      cases hb
      rw [leavingPos_of_le (Nat.le_refl p)]
      exact .inr (.inl ⟨rfl, ⟨hFree.1, hc⟩, leavingPos_behind (Nat.lt_succ_self p)⟩)
    · have hLt := (List.getElem?_eq_some_iff.mp hb).1
      rw [List.length_append, hTake, List.length_cons] at hLt
      rw [List.getElem?_append_right (by omega), hTake,
        show p - d = (p - d - 1) + 1 by omega, List.getElem?_cons_succ] at hb
      rw [leavingPos_inside hp (by omega)]
      exact .inr (.inr ⟨rfl, hFree.2 b (List.mem_of_getElem? hb),
        leavingPos_behind (by omega)⟩)
  · rw [hLast]
    exact leavingPos_end (by omega) (Nat.le_refl _)

/-- Reading along the key. -/
theorem Track.leaving_path_key {p q : Nat} (hd : d < key.length) (hpq : p ≤ q) (hq : q ≤ d) :
    (Track.leaving key d).Path p ((key.take q).drop p) q := by
  induction hn : q - p generalizing p with
  | zero =>
    have hEq : p = q := by omega
    subst hEq
    rw [List.drop_of_length_le (by simp)]
    rfl
  | succ n ih =>
    have hLt : p < (key.take q).length := by simp; omega
    rw [List.drop_eq_getElem_cons hLt]
    refine ⟨p + 1, mem_leavingMoves.mpr (.inl ⟨by omega, ?_, rfl⟩), ih (by omega) (by omega)⟩
    rw [← List.getElem?_take_of_lt (show p < q by omega), List.getElem?_eq_getElem hLt]

/-- Every position can be reached from the start. -/
theorem Track.leaving_path_from_start {p : Nat} (hd : d < key.length) (hp : p ≤ d + 2) :
    ∃ w, (Track.leaving key d).Path 0 w p := by
  by_cases hpd : p ≤ d
  · exact ⟨_, Track.leaving_path_key hd (Nat.zero_le p) hpd⟩
  · obtain ⟨c, hc⟩ := exists_otherBytes (key.getD d 0)
    have hMove : (c, p) ∈ (Track.leaving key d).moves d :=
      mem_leavingMoves.mpr (.inr (.inl ⟨rfl, mem_otherBytes.mp hc, by omega⟩))
    exact ⟨_, (Track.leaving_path_key hd (Nat.zero_le d) (Nat.le_refl d)).append
      (v := [c]) ⟨p, hMove, rfl⟩⟩

/-- From every position the end can be reached. -/
theorem Track.leaving_path_to_end {p : Nat} (hd : d < key.length) (hp : p ≤ d + 2) :
    ∃ w, (Track.leaving key d).Path p w (d + 2) := by
  obtain ⟨c, hc⟩ := exists_otherBytes (key.getD d 0)
  rw [mem_otherBytes] at hc
  rcases Nat.lt_or_ge d p with hpd | hpd
  · by_cases hEnd : p = d + 2
    · exact ⟨[], hEnd⟩
    · exact ⟨[c], d + 2, mem_leavingMoves.mpr (.inr (.inr ⟨by omega, hc.1, .inr rfl⟩)), rfl⟩
  · have hMove : (c, d + 2) ∈ (Track.leaving key d).moves d :=
      mem_leavingMoves.mpr (.inr (.inl ⟨rfl, hc, .inr rfl⟩))
    exact ⟨_, (Track.leaving_path_key hd hpd (Nat.le_refl d)).append (v := [c])
      ⟨d + 2, hMove, rfl⟩⟩

theorem Track.nulFree_of_leaving_path {w : List Byte} : ∀ {p : Nat}, d < p →
    (Track.leaving key d).Path p w (d + 2) → NulFree w := by
  induction w with
  | nil => exact fun _ _ => nulFree_nil
  | cons b w ih =>
    rintro p hp ⟨m, hMove, hw⟩
    rcases mem_leavingMoves.mp hMove with ⟨h, -⟩ | ⟨h, -⟩ | ⟨-, hb, hm⟩
    · omega
    · omega
    · exact nulFree_cons.mpr ⟨hb, ih (by omega) hw⟩

/-- What is read from the start to the end leaves the key at `d`. -/
theorem Track.eq_of_leaving_path (hd : d < key.length) {w : List Byte} : ∀ {p : Nat}, p ≤ d →
    (Track.leaving key d).Path p w (d + 2) →
    ∃ c t, c ≠ key.getD d 0 ∧ NulFree (c :: t) ∧ w = (key.take d).drop p ++ c :: t := by
  induction w with
  | nil =>
    intro p hp hw
    have hEq : p = d + 2 := hw
    omega
  | cons b w ih =>
    rintro p hp ⟨m, hMove, hw⟩
    rcases mem_leavingMoves.mp hMove with ⟨hLt, hb, rfl⟩ | ⟨rfl, hb, hm⟩ | ⟨h, -⟩
    · obtain ⟨c, t, hc, hFree, rfl⟩ := ih hLt hw
      refine ⟨c, t, hc, hFree, ?_⟩
      have hGet : (key.take d)[p]? = some b := by rw [List.getElem?_take_of_lt hLt, hb]
      obtain ⟨hLen, rfl⟩ := List.getElem?_eq_some_iff.mp hGet
      rw [← List.cons_append, ← List.drop_eq_getElem_cons hLen]
    · refine ⟨b, w, hb.2, nulFree_cons.mpr ⟨hb.1, ?_⟩, ?_⟩
      · exact Track.nulFree_of_leaving_path (by omega) hw
      · rw [List.drop_of_length_le (by simp), List.nil_append]
    · omega

/-- **The track stands for the strings that leave the key at `d`.** -/
theorem Track.accepts_leaving_iff (hd : d < key.length) :
    (Track.leaving key d).accepts e = true ↔
      ∃ c t, c ≠ key.getD d 0 ∧ NulFree (c :: t) ∧
        e.regexec (key.take d ++ c :: t) = true := by
  rw [Track.accepts_iff]
  constructor
  · rintro ⟨p, hp, q, hMatch⟩
    obtain ⟨w, hPath, hw⟩ := hMatch.realizes
    obtain ⟨pre, hPre⟩ := Track.leaving_path_from_start hd hp
    obtain ⟨post, hPost⟩ := Track.leaving_path_to_end hd (hMatch.le_last hp)
    obtain ⟨c, t, hc, hFree, hEq⟩ := Track.eq_of_leaving_path hd (Nat.zero_le d)
      ((hPre.append hPath).append hPost)
    refine ⟨c, t, hc, hFree, ?_⟩
    rw [List.drop_zero] at hEq
    rw [← hEq, Ere.regexec_iff]
    exact ⟨pre.length, by simp, _, hw pre post hPre hPost⟩
  · rintro ⟨c, t, hc, hFree, hMatch⟩
    obtain ⟨p, -, q, hMatch⟩ := Ere.regexec_iff.mp hMatch
    refine ⟨_, ?_, _, hMatch.leaving hd hc hFree⟩
    show leavingPos d _ p ≤ d + 2
    rcases Nat.lt_or_ge d p with hp | hp
    · have hBehind : leavingPos d (d + 1 + t.length) p = d + 1 ∨
          leavingPos d (d + 1 + t.length) p = d + 2 := leavingPos_behind hp
      omega
    · rw [leavingPos_of_le hp]
      omega

end Leaving

-- ---------------------------------------------------------------------------
-- Forced keys
-- ---------------------------------------------------------------------------

/-- A string that does not begin with the key ends inside it, or leaves it. -/
theorem not_isPrefix_cases {key s : List Byte} (h : ¬ key <+: s) :
    ∃ d < key.length, s = key.take d ∨
      ∃ c t, c ≠ key.getD d 0 ∧ s = key.take d ++ c :: t := by
  induction key generalizing s with
  | nil => exact absurd List.nil_prefix h
  | cons b key ih =>
    cases s with
    | nil => exact ⟨0, by simp, .inl rfl⟩
    | cons c s =>
      by_cases hc : c = b
      · subst hc
        have hTail : ¬ key <+: s := fun hTail => h ((List.prefix_cons_inj c).mpr hTail)
        obtain ⟨d, hd, hCase⟩ := ih hTail
        refine ⟨d + 1, by simpa using hd, ?_⟩
        rcases hCase with rfl | ⟨c', t, hc', rfl⟩
        · exact .inl rfl
        · exact .inr ⟨c', t, by simpa using hc', rfl⟩
      · exact ⟨0, by simp, .inr ⟨c, s, by simpa using hc, rfl⟩⟩

/-- No way through the expression ends inside the key or leaves it: at every place
of the key the only byte the expression can go on with is the byte of the key. -/
def Ere.Forces (e : Ere) (key : List Byte) : Prop :=
  ∀ d < key.length, e.regexec (key.take d) = false ∧ (Track.leaving key d).accepts e = false

instance (e : Ere) (key : List Byte) : Decidable (e.Forces key) :=
  inferInstanceAs (Decidable (∀ d < key.length, _ ∧ _))

/-- **A key is forced exactly when every string with a match begins with it.** -/
theorem Ere.forces_iff {e : Ere} {key : List Byte} (hKey : NulFree key) :
    e.Forces key ↔ ∀ s, NulFree s → e.regexec s = true → key <+: s := by
  constructor
  · intro hForces s hs hMatch
    by_contra hNot
    obtain ⟨d, hd, rfl | ⟨c, t, hc, rfl⟩⟩ := not_isPrefix_cases hNot
    · rw [(hForces d hd).1] at hMatch
      cases hMatch
    · have hLeaves := (Track.accepts_leaving_iff hd).mpr
        ⟨c, t, hc, (nulFree_append.mp hs).2, hMatch⟩
      rw [(hForces d hd).2] at hLeaves
      cases hLeaves
  · intro hAll d hd
    have hTake : NulFree (key.take d) := fun b hb => hKey b (List.mem_of_mem_take hb)
    constructor
    · by_contra hMatch
      have hPrefix := hAll _ hTake (Bool.not_eq_false _ ▸ hMatch)
      have := hPrefix.length_le
      simp at this
      omega
    · by_contra hMatch
      rw [Bool.not_eq_false] at hMatch
      obtain ⟨c, t, hc, hFree, hMatch⟩ := (Track.accepts_leaving_iff hd).mp hMatch
      have hPrefix := hAll _ (nulFree_append.mpr ⟨hTake, hFree⟩) hMatch
      obtain ⟨r, hr⟩ := hPrefix
      have hGet : (key.take d ++ c :: t)[d]? = some c := by
        rw [List.getElem?_append_right (by simp), List.length_take, Nat.min_eq_left hd.le]
        simp
      rw [← hr, List.getElem?_append_left hd] at hGet
      exact hc (by rw [List.getD_eq_getElem?_getD, hGet]; rfl)

end ZmqBridge.Lib
