import Mathlib

/-!
# C strings and bounded memory

Byte buffers as a C program sees them. A buffer is the list of its bytes and a
cursor is an offset into it. Every library routine checks the bounds the C
routine does not: an access outside the buffer ends in a `Fault` instead of in
undefined behaviour, so "reads and writes stay inside" is the statement that
no fault is raised.

* `strlen`, `readByte`, `readCstr`, `memcmpEq`, `strstr`, `strcmpEq` — reads;
* `CharArray`, `strcpy`, `strSizeCpy`, `snprintf` — writes into a fixed-size `char`
  array;
* `writeByte` — a write into any buffer;
* `memcpyAt` — writes into a freshly allocated, still uninitialised buffer;
* `narrowInt`, `toSizeT` — the conversion of a size to a 32-bit `int` and back;
* `Inside` — no fault is raised, with a rule for every routine.

A C string is described by the bytes in front of its terminator: `cstr` reads
them and `NulFree` holds of the strings a caller can pass.
-/

namespace ZmqBridge.Lib

abbrev Byte := UInt8

/-- What an invalid access is reported as: outside the object, or through a
pointer to no live object. -/
inductive Fault where
  | readOutside
  | writeOutside
  | badPointer
  deriving DecidableEq, Repr

/-- A string a C caller can pass: no terminator inside. -/
def NulFree (s : List Byte) : Prop := ∀ b ∈ s, b ≠ 0

instance (s : List Byte) : Decidable (NulFree s) :=
  List.decidableBAll (· ≠ 0) s

/-- The C string at the start of a buffer. -/
def cstr (buf : List Byte) : List Byte := buf.takeWhile (· ≠ 0)

-- ---------------------------------------------------------------------------
-- Reads
-- ---------------------------------------------------------------------------

/-- Scan for the terminator over the bytes that are still inside the buffer. -/
def strlenGo : List Byte → Except Fault Nat
  | [] => .error .readOutside
  | b :: bs => if b = 0 then .ok 0 else (strlenGo bs).map (· + 1)

/-- `strlen(buf + pos)`. -/
def strlen (buf : List Byte) (pos : Nat) : Except Fault Nat :=
  strlenGo (buf.drop pos)

/-- `buf[pos]`. -/
def readByte (buf : List Byte) (pos : Nat) : Except Fault Byte :=
  match buf[pos]? with
  | some b => .ok b
  | none => .error .readOutside

/-- The C string at `buf + pos`, as any routine that takes a `const char*`
reads it. -/
def readCstr (buf : List Byte) (pos : Nat) : Except Fault (List Byte) :=
  (strlen buf pos).map fun n => (buf.drop pos).take n

/-- How far `memcmp` reads. It may read all bytes it was given the length of; an
implementation may also stop at the first difference. -/
inductive MemcmpReads where
  | all
  | untilDifference
  deriving DecidableEq, Repr

/-- `memcmp(buf, s, strlen(s)) == 0`, where only `buf` may be too short. -/
def memcmpEq (reads : MemcmpReads) (buf s : List Byte) : Except Fault Bool :=
  if s.length ≤ buf.length then .ok (decide (s <+: buf))
  else if reads = .untilDifference ∧ ¬ buf <+: s then .ok false
  else .error .readOutside

/-- The first place at which `needle` begins. -/
def indexOf (needle : List Byte) : List Byte → Option Nat
  | [] => if needle = [] then some 0 else none
  | b :: s => if needle <+: b :: s then some 0 else (indexOf needle s).map (· + 1)

/-- `strstr(buf + pos, needle)`, as an offset from `pos`. -/
def strstr (buf : List Byte) (pos : Nat) (needle : List Byte) : Except Fault (Option Nat) :=
  (readCstr buf pos).map (indexOf needle)

/-- Compare with a string up to the first difference or the terminator. -/
def strcmpGo : List Byte → List Byte → Except Fault Bool
  | [], _ => .error .readOutside
  | b :: _, [] => .ok (decide (b = 0))
  | b :: bs, c :: cs => if b = c then strcmpGo bs cs else .ok false

/-- `strcmp(buf + pos, s) == 0`; the pointer may lie in front of the buffer. -/
def strcmpEq (buf : List Byte) (pos : Int) (s : List Byte) : Except Fault Bool :=
  if pos < 0 then .error .readOutside else strcmpGo (buf.drop pos.toNat) s

/-- `memcpy(fresh, buf, n)`: the copy. -/
def memcpyFrom (buf : List Byte) (n : Nat) : Except Fault (List Byte) :=
  if n ≤ buf.length then .ok (buf.take n) else .error .readOutside

/-- The `n` bytes from `pos` on. -/
def readBytes (buf : List Byte) (pos n : Nat) : Except Fault (List Byte) :=
  if pos + n ≤ buf.length then .ok ((buf.drop pos).take n) else .error .readOutside

/-- Run `f` over a list and collect what it returns, up to the first fault. -/
def collect {α β : Type*} (f : α → Except Fault (Option β)) : List α → Except Fault (List β)
  | [] => .ok []
  | a :: as => do
    let b ← f a
    let bs ← collect f as
    pure (b.toList ++ bs)

-- ---------------------------------------------------------------------------
-- Writes
-- ---------------------------------------------------------------------------

/-- A `char` array of fixed size. -/
structure CharArray (n : Nat) where
  bytes : List Byte
  size_eq : bytes.length = n
  deriving DecidableEq

/-- `char a[n]` filled with zeroes. -/
def CharArray.zero (n : Nat) : CharArray n := ⟨List.replicate n 0, by simp⟩

/-- `strcpy(a, "")`: only the first byte is written. -/
def CharArray.clear {n : Nat} (a : CharArray (n + 1)) : CharArray (n + 1) :=
  ⟨0 :: a.bytes.drop 1, by simp [a.size_eq]⟩

/-- The C string held by the array. -/
def CharArray.cstr {n : Nat} (a : CharArray n) : List Byte := Lib.cstr a.bytes

/-- The array holds the terminated string `s`; what follows the terminator is
left over from earlier contents. -/
def CharArray.Holds {n : Nat} (a : CharArray n) (s : List Byte) : Prop :=
  NulFree s ∧ ∃ rest, a.bytes = s ++ 0 :: rest

/-- Copy bytes up to and including the terminator, one at a time: the first
list is what is left of the source, the second what is left of the target. -/
def strcpyGo : List Byte → List Byte → Except Fault (List Byte)
  | [], _ => .error .readOutside
  | _ :: _, [] => .error .writeOutside
  | b :: bs, _ :: ds =>
    if b = 0 then .ok (0 :: ds) else (strcpyGo bs ds).map (b :: ·)

theorem strcpyGo_length : ∀ {src dst r : List Byte},
    strcpyGo src dst = .ok r → r.length = dst.length
  | [], _, _, h => by simp [strcpyGo] at h
  | _ :: _, [], _, h => by simp [strcpyGo] at h
  | b :: bs, d :: ds, r, h => by
    rw [strcpyGo] at h
    split at h
    · cases h
      rfl
    · cases hGo : strcpyGo bs ds with
      | error e => rw [hGo] at h; cases h
      | ok r' =>
        rw [hGo] at h
        cases h
        simp [strcpyGo_length hGo]

/-- `strcpy(dst, buf + pos)`. -/
def strcpy {n : Nat} (dst : CharArray n) (buf : List Byte) (pos : Nat) :
    Except Fault (CharArray n) :=
  match h : strcpyGo (buf.drop pos) dst.bytes with
  | .error e => .error e
  | .ok r => .ok ⟨r, (strcpyGo_length h).trans dst.size_eq⟩

/-- Copy at most `n - 1` bytes of `s`, terminate, and return the number of
bytes copied. -/
def strSizeCpy {n : Nat} (dst : CharArray n) (s : List Byte) : CharArray n × Nat :=
  let k := min s.length (n - 1)
  (⟨(s.take k ++ 0 :: dst.bytes.drop (k + 1)).take n, by
      have := dst.size_eq
      simp only [List.length_take, List.length_append, List.length_cons,
        List.length_drop]
      omega⟩, k)

/-- `buf[pos] = b`. -/
def writeByte (buf : List Byte) (pos : Int) (b : Byte) : Except Fault (List Byte) :=
  if 0 ≤ pos ∧ pos < buf.length then .ok (buf.set pos.toNat b) else .error .writeOutside

/-- What `snprintf` returns for an output of length `len`: the length itself, as
an `int`, or an error when it is no `int`. -/
def printedLength (len : Nat) : Int := if len < 2 ^ 31 then len else -1

/-- `snprintf(dst + pos, size, ..)` for the output `s`: nothing is written into no
space, otherwise at most `size - 1` bytes and the terminator. -/
def snprintf {n : Nat} (dst : CharArray n) (pos size : Nat) (s : List Byte) :
    Except Fault (CharArray n × Int) :=
  let k := min s.length (size - 1)
  if size = 0 then .ok (dst, printedLength s.length)
  else if h : pos + k < n then
    .ok (⟨dst.bytes.take pos ++ (s.take k ++ 0 :: dst.bytes.drop (pos + k + 1)), by
      have := dst.size_eq
      simp only [List.length_append, List.length_take, List.length_cons, List.length_drop]
      omega⟩, printedLength s.length)
  else .error .writeOutside

/-- `memcpy(buf + pos, src, sizeof src)` into a buffer whose unwritten bytes
are `none`. -/
def memcpyAt (buf : List (Option Byte)) (pos : Nat) (src : List Byte) :
    Except Fault (List (Option Byte)) :=
  if pos + src.length ≤ buf.length then
    .ok (buf.take pos ++ src.map some ++ buf.drop (pos + src.length))
  else .error .writeOutside

/-- Conversion to a 32-bit `int`. -/
def narrowInt (x : Int) : Int := x.bmod (2 ^ 32)

/-- Conversion to a 64-bit `size_t`. -/
def toSizeT (x : Int) : Nat := (x % 2 ^ 64).toNat

theorem collect_map {α β γ : Type*} {f : α → Except Fault (Option β)} {h : γ → α}
    {g : γ → Option β} {cs : List γ} (hEq : ∀ c ∈ cs, f (h c) = .ok (g c)) :
    collect f (cs.map h) = .ok (cs.filterMap g) := by
  induction cs with
  | nil => rfl
  | cons c cs ih =>
    rw [List.map_cons, collect, hEq c List.mem_cons_self,
      ih fun d hd => hEq d (List.mem_cons_of_mem _ hd), List.filterMap_cons]
    cases g c <;> rfl

theorem collect_ok {α β : Type*} {f : α → Except Fault (Option β)} {g : α → Option β}
    {as : List α} (h : ∀ a ∈ as, f a = .ok (g a)) : collect f as = .ok (as.filterMap g) := by
  simpa using collect_map (h := id) h

theorem filterMap_if {α β : Type*} {p : α → Prop} [DecidablePred p] {f : α → β}
    {as : List α} :
    as.filterMap (fun a => if p a then none else some (f a)) =
      (as.filter fun a => ¬ p a).map f := by
  induction as with
  | nil => rfl
  | cons a as ih =>
    by_cases h : p a
    · simp [h, ih]
    · simp [h, ih]

/-- What a partial map finds under a key keeps the order of the keys. -/
theorem filterMap_map_sublist {α β : Type*} {f : α → Option β} {key : β → α} {as : List α}
    (h : ∀ a b, f a = some b → key b = a) : ((as.filterMap f).map key).Sublist as := by
  induction as with
  | nil => exact List.Sublist.refl _
  | cons a as ih =>
    cases hf : f a with
    | none =>
      rw [List.filterMap_cons_none hf]
      exact ih.cons a
    | some b =>
      rw [List.filterMap_cons_some hf, List.map_cons, h a b hf]
      exact ih.cons_cons a

-- ---------------------------------------------------------------------------
-- Strings in front of a terminator
-- ---------------------------------------------------------------------------

@[simp] theorem nulFree_nil : NulFree [] := by
  intro b hb
  cases hb

@[simp] theorem nulFree_cons {b : Byte} {s : List Byte} :
    NulFree (b :: s) ↔ b ≠ 0 ∧ NulFree s := by
  simp [NulFree]

@[simp] theorem nulFree_append {s t : List Byte} :
    NulFree (s ++ t) ↔ NulFree s ∧ NulFree t := by
  simp only [NulFree, List.mem_append]
  constructor
  · exact fun h => ⟨fun b hb => h b (.inl hb), fun b hb => h b (.inr hb)⟩
  · rintro ⟨hs, ht⟩ b (hb | hb)
    · exact hs b hb
    · exact ht b hb

theorem nulFree_cstr (buf : List Byte) : NulFree (cstr buf) := by
  intro b hb
  have := List.mem_takeWhile_imp hb
  simpa using this

theorem cstr_append {s rest : List Byte} (hs : NulFree s) :
    cstr (s ++ 0 :: rest) = s := by
  rw [cstr, List.takeWhile_append_of_pos]
  · simp
  · intro b hb
    simpa using hs b hb

/-- A buffer that contains a terminator is its C string, the terminator and a
rest. -/
theorem exists_cstr_split {buf : List Byte} (h : (0 : Byte) ∈ buf) :
    ∃ rest, buf = cstr buf ++ 0 :: rest := by
  induction buf with
  | nil => cases h
  | cons b bs ih =>
    by_cases hb : b = 0
    · exact ⟨bs, by simp [cstr, hb]⟩
    · have hbs : (0 : Byte) ∈ bs := by
        rcases List.mem_cons.mp h with h0 | h0
        · exact absurd h0.symm hb
        · exact h0
      obtain ⟨rest, hrest⟩ := ih hbs
      refine ⟨rest, ?_⟩
      have hcs : cstr (b :: bs) = b :: cstr bs := by simp [cstr, hb]
      rw [hcs, List.cons_append, ← hrest]

/-- Cutting a buffer behind the terminator keeps the string. -/
theorem cstr_take {buf : List Byte} {n : Nat} (h : (0 : Byte) ∈ buf.take n) :
    cstr (buf.take n) = cstr buf := by
  obtain ⟨rest, hRest⟩ := exists_cstr_split h
  have hBuf : buf = cstr (buf.take n) ++ 0 :: (rest ++ buf.drop n) := by
    conv_lhs => rw [← List.take_append_drop n buf, hRest]
    simp
  conv_rhs => rw [hBuf]
  exact (cstr_append (nulFree_cstr _)).symm

theorem strlenGo_append {s rest : List Byte} (hs : NulFree s) :
    strlenGo (s ++ 0 :: rest) = .ok s.length := by
  induction s with
  | nil => simp [strlenGo]
  | cons b s ih =>
    rw [nulFree_cons] at hs
    rw [List.cons_append, strlenGo, if_neg hs.1, ih hs.2]
    rfl

theorem strlenGo_no_nul {s : List Byte} (hs : NulFree s) :
    strlenGo s = .error .readOutside := by
  induction s with
  | nil => rfl
  | cons b s ih =>
    rw [nulFree_cons] at hs
    rw [strlenGo, if_neg hs.1, ih hs.2]
    rfl

/-- **`strlen` stays inside exactly when the buffer has a terminator from the
cursor on.** -/
theorem strlen_eq (buf : List Byte) (pos : Nat) :
    strlen buf pos =
      if (0 : Byte) ∈ buf.drop pos then .ok (cstr (buf.drop pos)).length
      else .error .readOutside := by
  rw [strlen]
  split
  · rename_i h
    obtain ⟨rest, hrest⟩ := exists_cstr_split h
    conv_lhs => rw [hrest]
    exact strlenGo_append (nulFree_cstr _)
  · rename_i h
    exact strlenGo_no_nul fun b hb h0 => h (h0 ▸ hb)

theorem cstr_eq_take {buf : List Byte} : cstr buf = buf.take (cstr buf).length :=
  (List.prefix_iff_eq_take.mp (List.takeWhile_prefix _))

theorem readCstr_eq (buf : List Byte) (pos : Nat) :
    readCstr buf pos =
      if (0 : Byte) ∈ buf.drop pos then .ok (cstr (buf.drop pos))
      else .error .readOutside := by
  rw [readCstr, strlen_eq]
  split
  · rw [Except.map, ← cstr_eq_take]
  · rfl

theorem strlen_at {p s r : List Byte} (hs : NulFree s) :
    strlen (p ++ (s ++ 0 :: r)) p.length = .ok s.length := by
  rw [strlen, List.drop_left]
  exact strlenGo_append hs

theorem readCstr_at {p s r : List Byte} (hs : NulFree s) :
    readCstr (p ++ (s ++ 0 :: r)) p.length = .ok s := by
  rw [readCstr_eq, List.drop_left, if_pos (by simp), cstr_append hs]

theorem readByte_at {p r : List Byte} {b : Byte} :
    readByte (p ++ b :: r) p.length = .ok b := by
  simp [readByte]

theorem readByte_eq_ok {buf : List Byte} {pos : Nat} (h : pos < buf.length) :
    readByte buf pos = .ok buf[pos] := by
  simp [readByte, h]

theorem readByte_eq_error {buf : List Byte} {pos : Nat} (h : buf.length ≤ pos) :
    readByte buf pos = .error .readOutside := by
  simp [readByte, h]

/-- A string without terminator is a prefix of a buffer exactly when it is a
prefix of the C string in the buffer. -/
theorem prefix_cstr_iff {t s r : List Byte} (ht : NulFree t) :
    t <+: s ++ 0 :: r ↔ t <+: s := by
  refine ⟨fun h => ?_, fun h => h.trans (List.prefix_append _ _)⟩
  induction s generalizing t with
  | nil =>
    cases t with
    | nil => exact List.nil_prefix
    | cons b t =>
      obtain ⟨hb, -⟩ := List.cons_prefix_cons.mp h
      exact absurd hb (nulFree_cons.mp ht).1
  | cons c s ih =>
    cases t with
    | nil => exact List.nil_prefix
    | cons b t =>
      obtain ⟨hb, hTail⟩ := List.cons_prefix_cons.mp h
      exact List.cons_prefix_cons.mpr ⟨hb, ih (nulFree_cons.mp ht).2 hTail⟩

/-- Comparing a terminated buffer with a string, for a `memcmp` that stops at
the first difference: the terminator is one. -/
theorem memcmpEq_cstr {t s r : List Byte} (ht : NulFree t) :
    memcmpEq .untilDifference (s ++ 0 :: r) t = .ok (decide (t <+: s)) := by
  rw [memcmpEq]
  split
  · simp only [prefix_cstr_iff ht]
  · rename_i hLong
    have hNot : ¬ s ++ 0 :: r <+: t := by
      intro h
      have h0 : (0 : Byte) ∈ t := h.subset (by simp)
      exact ht 0 h0 rfl
    have hLonger : ¬ t <+: s := by
      intro h
      have := h.length_le
      simp at hLong
      omega
    rw [if_pos ⟨rfl, hNot⟩, decide_eq_false hLonger]

-- ---------------------------------------------------------------------------
-- Fixed-size arrays
-- ---------------------------------------------------------------------------

theorem CharArray.Holds.cstr_eq {n : Nat} {a : CharArray n} {s : List Byte}
    (h : a.Holds s) : a.cstr = s := by
  obtain ⟨hs, rest, hrest⟩ := h
  rw [CharArray.cstr, hrest]
  exact cstr_append hs

theorem CharArray.Holds.length_lt {n : Nat} {a : CharArray n} {s : List Byte}
    (h : a.Holds s) : s.length < n := by
  obtain ⟨-, rest, hrest⟩ := h
  have := congrArg List.length hrest
  rw [a.size_eq] at this
  simp at this
  omega

theorem CharArray.Holds.strlen_eq {n : Nat} {a : CharArray n} {s : List Byte}
    (h : a.Holds s) : strlen a.bytes 0 = .ok s.length := by
  obtain ⟨hs, rest, hrest⟩ := h
  rw [hrest]
  exact strlen_at (p := []) hs

theorem CharArray.clear_holds {n : Nat} (a : CharArray (n + 1)) : a.clear.Holds [] :=
  ⟨nulFree_nil, a.bytes.drop 1, rfl⟩

theorem strcpyGo_append {s r d : List Byte} (hs : NulFree s)
    (hLen : s.length < d.length) :
    strcpyGo (s ++ 0 :: r) d = .ok (s ++ 0 :: d.drop (s.length + 1)) := by
  induction s generalizing d with
  | nil =>
    cases d with
    | nil => simp at hLen
    | cons d ds => simp [strcpyGo]
  | cons b s ih =>
    cases d with
    | nil => simp at hLen
    | cons d ds =>
      rw [nulFree_cons] at hs
      rw [List.cons_append, strcpyGo, if_neg hs.1,
        ih hs.2 (by simpa using hLen)]
      rfl

theorem strcpyGo_too_long {s r d : List Byte} (hs : NulFree s)
    (hLen : d.length ≤ s.length) :
    strcpyGo (s ++ 0 :: r) d = .error .writeOutside := by
  induction s generalizing d with
  | nil =>
    cases d with
    | nil => simp [strcpyGo]
    | cons d ds => simp at hLen
  | cons b s ih =>
    cases d with
    | nil => simp [strcpyGo]
    | cons d ds =>
      rw [nulFree_cons] at hs
      rw [List.cons_append, strcpyGo, if_neg hs.1, ih hs.2 (by simpa using hLen)]
      rfl

theorem strcpyGo_no_nul {s d : List Byte} (hs : NulFree s) :
    ∃ e, strcpyGo s d = .error e := by
  induction s generalizing d with
  | nil => exact ⟨_, rfl⟩
  | cons b s ih =>
    cases d with
    | nil => exact ⟨_, rfl⟩
    | cons d ds =>
      rw [nulFree_cons] at hs
      obtain ⟨e, he⟩ := ih hs.2 (d := ds)
      exact ⟨e, by rw [strcpyGo, if_neg hs.1, he]; rfl⟩

theorem strcpy_of_go {n : Nat} {dst : CharArray n} {buf : List Byte} {pos : Nat}
    {r : List Byte} (h : strcpyGo (buf.drop pos) dst.bytes = .ok r) :
    strcpy dst buf pos = .ok ⟨r, (strcpyGo_length h).trans dst.size_eq⟩ := by
  unfold strcpy
  split
  · rename_i e he
    rw [he] at h
    cases h
  · rename_i r' hr'
    rw [hr'] at h
    cases h
    rfl

theorem strcpy_of_go_error {n : Nat} {dst : CharArray n} {buf : List Byte} {pos : Nat}
    {e : Fault} (h : strcpyGo (buf.drop pos) dst.bytes = .error e) :
    strcpy dst buf pos = .error e := by
  unfold strcpy
  split
  · rename_i e' he
    rw [he] at h
    cases h
    rfl
  · rename_i r' hr'
    rw [hr'] at h
    cases h

/-- **`strcpy` into a fixed-size array.** It stays inside source and target
exactly when the source string is terminated and fits; then the target holds
that string. -/
theorem strcpy_ok_iff {n : Nat} {dst : CharArray n} {buf : List Byte} {pos : Nat} :
    (∃ a, strcpy dst buf pos = .ok a) ↔
      (0 : Byte) ∈ buf.drop pos ∧ (cstr (buf.drop pos)).length < n := by
  by_cases h0 : (0 : Byte) ∈ buf.drop pos
  · obtain ⟨rest, hrest⟩ := exists_cstr_split h0
    have hs := nulFree_cstr (buf.drop pos)
    by_cases hLen : (cstr (buf.drop pos)).length < n
    · have hGo := strcpyGo_append (r := rest) hs
        (d := dst.bytes) (by rw [dst.size_eq]; exact hLen)
      rw [← hrest] at hGo
      exact ⟨fun _ => ⟨h0, hLen⟩, fun _ => ⟨_, strcpy_of_go hGo⟩⟩
    · have hGo := strcpyGo_too_long (r := rest) hs
        (d := dst.bytes) (by rw [dst.size_eq]; omega)
      rw [← hrest] at hGo
      constructor
      · rintro ⟨a, ha⟩
        rw [strcpy_of_go_error hGo] at ha
        cases ha
      · exact fun h => absurd h.2 hLen
  · constructor
    · rintro ⟨a, ha⟩
      obtain ⟨e, he⟩ := strcpyGo_no_nul (s := buf.drop pos) (d := dst.bytes)
        (fun b hb hb0 => h0 (hb0 ▸ hb))
      rw [strcpy_of_go_error he] at ha
      cases ha
    · exact fun h => absurd h.1 h0

theorem strcpy_holds {n : Nat} {dst a : CharArray n} {buf : List Byte} {pos : Nat}
    (h : strcpy dst buf pos = .ok a) : a.Holds (cstr (buf.drop pos)) := by
  obtain ⟨h0, hLen⟩ := strcpy_ok_iff.mp ⟨a, h⟩
  obtain ⟨rest, hrest⟩ := exists_cstr_split h0
  have hs := nulFree_cstr (buf.drop pos)
  have hGo := strcpyGo_append (r := rest) hs
    (d := dst.bytes) (by rw [dst.size_eq]; exact hLen)
  rw [← hrest] at hGo
  rw [strcpy_of_go hGo] at h
  cases h
  exact ⟨hs, _, rfl⟩

/-- Copying a string that sits at the cursor and fits. -/
theorem strcpy_at {n : Nat} {d : CharArray n} {p s r : List Byte}
    (hs : NulFree s) (hLen : s.length < n) :
    ∃ a, strcpy d (p ++ (s ++ 0 :: r)) p.length = .ok a ∧ a.Holds s := by
  have hcs : cstr ((p ++ (s ++ 0 :: r)).drop p.length) = s := by
    rw [List.drop_left]
    exact cstr_append hs
  have hFits : (0 : Byte) ∈ (p ++ (s ++ 0 :: r)).drop p.length ∧
      (cstr ((p ++ (s ++ 0 :: r)).drop p.length)).length < n :=
    ⟨by rw [List.drop_left]; simp, by rw [hcs]; exact hLen⟩
  obtain ⟨a, ha⟩ := strcpy_ok_iff.mpr hFits
  exact ⟨a, ha, hcs ▸ strcpy_holds ha⟩

/-- Copying a string that sits at the cursor and fits leaves the same bytes as
the bounded copy. -/
theorem strcpy_eq_strSizeCpy {n : Nat} {d : CharArray n} {p s r : List Byte}
    (hs : NulFree s) (hLen : s.length < n) :
    strcpy d (p ++ (s ++ 0 :: r)) p.length = .ok (strSizeCpy d s).1 := by
  have hGo : strcpyGo ((p ++ (s ++ 0 :: r)).drop p.length) d.bytes =
      .ok (s ++ 0 :: d.bytes.drop (s.length + 1)) := by
    rw [List.drop_left]
    exact strcpyGo_append hs (by rw [d.size_eq]; exact hLen)
  have hk : min s.length (n - 1) = s.length := by omega
  rw [strcpy_of_go hGo]
  congr 2
  show _ = (s.take (min s.length (n - 1)) ++ 0 :: d.bytes.drop (min s.length (n - 1) + 1)).take n
  rw [hk, List.take_length, List.take_of_length_le]
  have := d.size_eq
  simp
  omega

/-- The bounded copy keeps what fits. -/
theorem strSizeCpy_holds_take {n : Nat} {dst : CharArray n} {s : List Byte}
    (hs : NulFree s) (hn : 0 < n) : (strSizeCpy dst s).1.Holds (s.take (n - 1)) := by
  have hTake : s.take (min s.length (n - 1)) = s.take (n - 1) := by
    rw [List.take_eq_take_iff]
    omega
  refine ⟨fun b hb => hs b (List.mem_of_mem_take hb),
    dst.bytes.drop (min s.length (n - 1) + 1), ?_⟩
  show ((s.take (min s.length (n - 1)) ++
    0 :: dst.bytes.drop (min s.length (n - 1) + 1)).take n) = _
  rw [hTake, List.take_of_length_le]
  have := dst.size_eq
  simp
  omega

theorem strSizeCpy_holds {n : Nat} {dst : CharArray n} {s : List Byte}
    (hs : NulFree s) (hLen : s.length < n) :
    (strSizeCpy dst s).1.Holds s ∧ (strSizeCpy dst s).2 = s.length := by
  have hk : min s.length (n - 1) = s.length := by omega
  refine ⟨⟨hs, dst.bytes.drop (s.length + 1), ?_⟩, hk⟩
  show ((s.take (min s.length (n - 1)) ++
    0 :: dst.bytes.drop (min s.length (n - 1) + 1)).take n) = _
  rw [hk, List.take_length, List.take_of_length_le]
  have := dst.size_eq
  simp
  omega

/-- Printing behind a text of which the array holds what fits: then it holds what
fits of both. -/
theorem snprintf_append {n : Nat} {dst : CharArray n} {t s : List Byte} {size : Nat}
    (ht : NulFree t) (hs : NulFree s) (hn : t.length + size < n) (hPos : 0 < t.length + size)
    (hDst : t = [] ∨ dst.Holds (t.take (t.length + size - 1))) :
    ∃ a, snprintf dst t.length size s = .ok (a, printedLength s.length) ∧
      a.Holds ((t ++ s).take (t.length + size - 1)) := by
  by_cases h0 : size = 0
  · -- no space is left: the text already fills the array
    subst h0
    refine ⟨dst, by simp [snprintf], ?_⟩
    rcases hDst with rfl | hDst
    · simp at hPos
    · rwa [List.take_append_of_le_length (by omega)]
  · have hTake : dst.bytes.take t.length = t := by
      rcases hDst with rfl | ⟨-, rest, hRest⟩
      · simp
      · rw [List.take_of_length_le (by omega)] at hRest
        rw [hRest, List.take_left]
    have hKept : (t ++ s).take (t.length + size - 1) =
        t ++ s.take (min s.length (size - 1)) := by
      rw [List.take_append, List.take_of_length_le (by omega), List.append_cancel_left_eq,
        List.take_eq_take_iff]
      omega
    refine ⟨_, by rw [snprintf, if_neg h0, dif_pos (by omega)], ?_, ?_⟩
    · exact fun b hb => (nulFree_append.mpr ⟨ht, hs⟩) b (List.mem_of_mem_take hb)
    · refine ⟨dst.bytes.drop (t.length + min s.length (size - 1) + 1), ?_⟩
      show dst.bytes.take t.length ++ _ = _
      rw [hTake, hKept, List.append_assoc]

-- ---------------------------------------------------------------------------
-- Searching, comparing and cutting
-- ---------------------------------------------------------------------------

theorem indexOf_lt {needle s : List Byte} (hNeedle : needle ≠ []) {i : Nat}
    (h : indexOf needle s = some i) : i < s.length := by
  induction s generalizing i with
  | nil =>
    rw [indexOf, if_neg hNeedle] at h
    cases h
  | cons b s ih =>
    rw [indexOf] at h
    split at h
    · cases h
      simp
    · obtain ⟨j, hj, rfl⟩ := Option.map_eq_some_iff.mp h
      have := ih hj
      simpa using this

/-- A needle that is longer than the string is not found. -/
theorem indexOf_eq_none {needle s : List Byte} (h : s.length < needle.length) :
    indexOf needle s = none := by
  induction s with
  | nil =>
    rw [indexOf, if_neg (by rintro rfl; simp at h)]
  | cons b s ih =>
    rw [indexOf, if_neg (fun hPre => by have := hPre.length_le; omega),
      ih (by simp at h; omega)]
    rfl

/-- A needle whose first byte does not occur is not found. -/
theorem indexOf_of_notMem {c : Byte} {needle s : List Byte} (h : c ∉ s) :
    indexOf (c :: needle) s = none := by
  induction s with
  | nil => rfl
  | cons b s ih =>
    obtain ⟨hb, hs⟩ := not_or.mp (mt List.mem_cons.mpr h)
    rw [indexOf, if_neg (fun hPre => hb (List.cons_prefix_cons.mp hPre).1), ih hs]
    rfl

/-- A needle is found behind text without its first byte. -/
theorem indexOf_append {c : Byte} {needle p : List Byte} (h : c ∉ p) (r : List Byte) :
    indexOf (c :: needle) (p ++ (c :: needle ++ r)) = some p.length := by
  induction p with
  | nil =>
    have hPre : c :: needle <+: c :: (needle ++ r) := List.prefix_append (c :: needle) r
    rw [List.nil_append, List.cons_append, indexOf, if_pos hPre]
    rfl
  | cons b p ih =>
    obtain ⟨hb, hp⟩ := not_or.mp (mt List.mem_cons.mpr h)
    rw [List.cons_append, indexOf, if_neg (fun hPre => hb (List.cons_prefix_cons.mp hPre).1),
      ih hp]
    rfl

theorem indexOf_le {needle : List Byte} (hNeedle : needle ≠ []) (p r : List Byte) :
    ∃ i ≤ p.length, indexOf needle (p ++ (needle ++ r)) = some i := by
  induction p with
  | nil =>
    obtain ⟨c, needle, rfl⟩ := List.exists_cons_of_ne_nil hNeedle
    exact ⟨0, Nat.zero_le _, indexOf_append List.not_mem_nil r⟩
  | cons b p ih =>
    obtain ⟨i, hi, hIndex⟩ := ih
    rw [List.cons_append, indexOf]
    split
    · exact ⟨0, Nat.zero_le _, rfl⟩
    · exact ⟨i + 1, Nat.succ_le_succ hi, by rw [hIndex]; rfl⟩

theorem strcmpGo_cstr {t s r : List Byte} (ht : NulFree t) (hs : NulFree s) :
    strcmpGo (t ++ 0 :: r) s = .ok (decide (t = s)) := by
  induction t generalizing s with
  | nil =>
    cases s with
    | nil => rfl
    | cons c s =>
      rw [nulFree_cons] at hs
      rw [List.nil_append, strcmpGo, if_neg hs.1.symm]
      rfl
  | cons b t ih =>
    rw [nulFree_cons] at ht
    cases s with
    | nil => simp [strcmpGo, ht.1]
    | cons c s =>
      rw [nulFree_cons] at hs
      rw [List.cons_append, strcmpGo]
      split
      · rename_i hbc
        subst hbc
        rw [ih ht.2 hs.2]
        simp
      · rename_i hbc
        simp [hbc]

/-- A terminator written into a string cuts it. -/
theorem readCstr_writeByte {p s r : List Byte} {i : Nat} (hs : NulFree s) (hi : i ≤ s.length) :
    (do let buf ← writeByte (p ++ (s ++ 0 :: r)) (p.length + i) 0
        readCstr buf p.length) = .ok (s.take i) := by
  have hWrite : writeByte (p ++ (s ++ 0 :: r)) (p.length + i) 0 =
      .ok (p ++ (s.take i ++ 0 :: (s ++ 0 :: r).drop (i + 1))) := by
    rw [writeByte, if_pos ⟨by omega, by simp; omega⟩]
    congr 1
    rw [show ((p.length : Int) + i).toNat = p.length + i by omega,
      List.set_append_right _ _ (by omega), Nat.add_sub_cancel_left,
      List.set_eq_take_append_cons_drop, if_pos (by simp; omega),
      List.take_append_of_le_length hi]
  rw [hWrite]
  exact readCstr_at fun b hb => hs b (List.mem_of_mem_take hb)

-- ---------------------------------------------------------------------------
-- Filling a fresh buffer from the left
-- ---------------------------------------------------------------------------

/-- A buffer of which the first bytes are written and the rest is not. -/
def filled (done : List Byte) (left : Nat) : List (Option Byte) :=
  done.map some ++ List.replicate left none

@[simp] theorem filled_length (done : List Byte) (left : Nat) :
    (filled done left).length = done.length + left := by
  simp [filled]

/-- Writing at the end of the filled part extends it. -/
theorem memcpyAt_filled {done src : List Byte} {left : Nat} (h : src.length ≤ left) :
    memcpyAt (filled done left) done.length src =
      .ok (filled (done ++ src) (left - src.length)) := by
  rw [memcpyAt, if_pos (by rw [filled_length]; omega)]
  congr 1
  simp [filled, List.drop_append]

-- ---------------------------------------------------------------------------
-- Sizes
-- ---------------------------------------------------------------------------

theorem narrowInt_lt (x : Int) : narrowInt x < 2 ^ 31 := by
  have := Int.bmod_lt (x := x) (m := 2 ^ 32) (by norm_num)
  rw [narrowInt]
  omega

theorem narrowInt_of_lt {n : Nat} (h : n < 2 ^ 31) : narrowInt n = n := by
  rw [narrowInt, Int.bmod_eq_of_le]
  · omega
  · omega

-- ---------------------------------------------------------------------------
-- Computations that stay inside
-- ---------------------------------------------------------------------------

/-- The computation makes no access outside an object. -/
def Inside {α : Type*} (x : Except Fault α) : Prop := ∃ a, x = .ok a

section Inside

variable {α β : Type}

@[simp] theorem inside_pure (a : α) : Inside (pure a : Except Fault α) := ⟨a, rfl⟩

@[simp] theorem inside_ok (a : α) : Inside (.ok a : Except Fault α) := ⟨a, rfl⟩

@[simp] theorem not_inside_error (e : Fault) : ¬ Inside (.error e : Except Fault α) := by
  rintro ⟨a, ha⟩
  cases ha

/-- A sequence that succeeds, taken apart. -/
-- not by `rfl` alone: `simp` would leave it to the kernel to see the two sides equal,
-- and that would evaluate `f a`
theorem ok_bind (a : α) (f : α → Except Fault β) : (Except.ok a >>= f) = f a :=
  Eq.trans rfl rfl

theorem error_bind (e : Fault) (f : α → Except Fault β) :
    (Except.error e >>= f) = .error e :=
  Eq.trans rfl rfl

theorem bind_eq_ok {x : Except Fault α} {f : α → Except Fault β} {b : β}
    (h : (x >>= f) = .ok b) : ∃ a, x = .ok a ∧ f a = .ok b := by
  cases x with
  | error e => cases h
  | ok a => exact ⟨a, rfl, h⟩

/-- A sequence stays inside when its first part does and the rest does with what
the first part returned. -/
theorem inside_bind {x : Except Fault α} {f : α → Except Fault β} :
    Inside (x >>= f) ↔ ∃ a, x = .ok a ∧ Inside (f a) := by
  constructor
  · rintro ⟨b, hb⟩
    obtain ⟨a, ha, hf⟩ := bind_eq_ok hb
    exact ⟨a, ha, b, hf⟩
  · rintro ⟨a, rfl, h⟩
    exact h

/-- The rest does not look at what the first part returned. -/
theorem inside_then {x : Except Fault α} {y : Except Fault β} :
    Inside (x >>= fun _ => y) ↔ Inside x ∧ Inside y := by
  rw [inside_bind]
  constructor
  · rintro ⟨a, ha, hy⟩
    exact ⟨⟨a, ha⟩, hy⟩
  · rintro ⟨⟨a, ha⟩, hy⟩
    exact ⟨a, ha, hy⟩

@[simp] theorem inside_map {x : Except Fault α} {f : α → β} : Inside (x.map f) ↔ Inside x := by
  cases x with
  | error e =>
    constructor
    · rintro ⟨b, hb⟩
      cases hb
    · rintro ⟨a, ha⟩
      cases ha
  | ok a => exact ⟨fun _ => ⟨a, rfl⟩, fun _ => ⟨f a, rfl⟩⟩

theorem inside_ite {c : Prop} [Decidable c] {x y : Except Fault α} :
    Inside (if c then x else y) ↔ (c → Inside x) ∧ (¬ c → Inside y) := by
  split
  · rename_i h
    exact ⟨fun hx => ⟨fun _ => hx, fun hn => absurd h hn⟩, fun hBoth => hBoth.1 h⟩
  · rename_i h
    exact ⟨fun hy => ⟨fun hc => absurd hc h, fun _ => hy⟩, fun hBoth => hBoth.2 h⟩

theorem inside_readCstr {buf : List Byte} {pos : Nat} :
    Inside (readCstr buf pos) ↔ (0 : Byte) ∈ buf.drop pos := by
  rw [readCstr_eq]
  split
  · rename_i h
    exact iff_of_true (inside_ok _) h
  · rename_i h
    exact iff_of_false (not_inside_error _) h

/-- What a string read that stays inside returns. -/
theorem readCstr_eq_ok {buf s : List Byte} {pos : Nat} (h : readCstr buf pos = .ok s) :
    (0 : Byte) ∈ buf.drop pos ∧ s = cstr (buf.drop pos) := by
  have h0 := inside_readCstr.mp ⟨s, h⟩
  rw [readCstr_eq, if_pos h0] at h
  exact ⟨h0, (Except.ok.inj h).symm⟩

theorem inside_readByte {buf : List Byte} {pos : Nat} :
    Inside (readByte buf pos) ↔ pos < buf.length := by
  by_cases h : pos < buf.length
  · exact iff_of_true ⟨_, readByte_eq_ok h⟩ h
  · rw [readByte_eq_error (by omega)]
    exact iff_of_false (not_inside_error _) h

theorem inside_memcpyFrom {buf : List Byte} {n : Nat} :
    Inside (memcpyFrom buf n) ↔ n ≤ buf.length := by
  rw [memcpyFrom]
  split
  · rename_i h
    exact iff_of_true (inside_ok _) h
  · rename_i h
    exact iff_of_false (not_inside_error _) h

theorem inside_readBytes {buf : List Byte} {pos n : Nat} :
    Inside (readBytes buf pos n) ↔ pos + n ≤ buf.length := by
  rw [readBytes]
  split
  · rename_i h
    exact iff_of_true (inside_ok _) h
  · rename_i h
    exact iff_of_false (not_inside_error _) h

/-- `memcmp` finds all the bytes it reads in `buf`. -/
def MemcmpInside (reads : MemcmpReads) (buf s : List Byte) : Prop :=
  s.length ≤ buf.length ∨ reads = .untilDifference ∧ ¬ buf <+: s

instance (reads : MemcmpReads) (buf s : List Byte) : Decidable (MemcmpInside reads buf s) :=
  inferInstanceAs (Decidable (_ ∨ _))

theorem memcmpEq_eq (reads : MemcmpReads) (buf s : List Byte) :
    memcmpEq reads buf s =
      if MemcmpInside reads buf s then .ok (decide (s <+: buf)) else .error .readOutside := by
  rw [memcmpEq]
  by_cases hLen : s.length ≤ buf.length
  · rw [if_pos hLen, if_pos (show MemcmpInside reads buf s from Or.inl hLen)]
  · have hNot : ¬ s <+: buf := fun h => hLen h.length_le
    rw [if_neg hLen, decide_eq_false hNot]
    by_cases hStop : reads = .untilDifference ∧ ¬ buf <+: s
    · rw [if_pos hStop, if_pos (show MemcmpInside reads buf s from Or.inr hStop)]
    · rw [if_neg hStop, if_neg fun h : MemcmpInside reads buf s => h.elim hLen hStop]

theorem inside_collect {f : α → Except Fault (Option β)} {as : List α} :
    Inside (collect f as) ↔ ∀ a ∈ as, Inside (f a) := by
  induction as with
  | nil => exact iff_of_true (inside_ok _) (by simp)
  | cons a as ih =>
    rw [collect, inside_bind, List.forall_mem_cons]
    constructor
    · rintro ⟨b, hb, h⟩
      obtain ⟨bs, hbs, -⟩ := inside_bind.mp h
      exact ⟨⟨b, hb⟩, ih.mp ⟨bs, hbs⟩⟩
    · rintro ⟨⟨b, hb⟩, h⟩
      obtain ⟨bs, hbs⟩ := ih.mpr h
      exact ⟨b, hb, inside_bind.mpr ⟨bs, hbs, inside_pure _⟩⟩

/-- What is collected was returned for some element. -/
theorem mem_collect {f : α → Except Fault (Option β)} {as : List α} {bs : List β}
    (h : collect f as = .ok bs) {b : β} (hb : b ∈ bs) : ∃ a ∈ as, f a = .ok (some b) := by
  induction as generalizing bs with
  | nil =>
    cases h
    cases hb
  | cons a as ih =>
    rw [collect] at h
    cases hf : f a with
    | error e =>
      rw [hf] at h
      cases h
    | ok r =>
      cases hRest : collect f as with
      | error e =>
        rw [hf, hRest] at h
        cases h
      | ok cs =>
        rw [hf, hRest] at h
        cases h
        rcases List.mem_append.mp hb with hb | hb
        · rw [Option.mem_toList] at hb
          exact ⟨a, List.mem_cons_self, by rw [hf, hb]⟩
        · obtain ⟨a', ha', hEq⟩ := ih hRest hb
          exact ⟨a', List.mem_cons_of_mem _ ha', hEq⟩

end Inside

end ZmqBridge.Lib
