import Mathlib.Data.List.Basic
import Mathlib.Data.List.Infix
import Mathlib.Algebra.Ring.Nat

/-!
# Lib.ByteReader

Programs that read a file from front to back: they read bytes, move the cursor on without looking,
and raise. A cursor may stand behind the end of the file; what is read there is empty. The passes of
the loops are counted, and the count outlives an exception.

* `Reads p enc tail a`: when `enc` stands at the cursor, all but its last `tail` bytes, `p` returns
  `a` behind it. What is read is asked for; what is only passed over may be missing.
* `Sound p Q`: when `p` returns, something `Q` speaks of stands at the cursor, as far as the file
  goes.
* `Paid w d p`: a pass costs `w` of the bytes that are not read yet, and `p` gives back `d` of them
  at least.

Each has one rule for `bind` and one for the loop.

Numbers are little-endian: `LittleEndian.decode` undoes `LittleEndian.encode`, and the other way
round.
-/

namespace LittleEndian

def decode : List UInt8 → Nat
  | [] => 0
  | b :: bs => b.toNat + 256 * decode bs

/-- The lowest `size` bytes of a number. -/
def encode : Nat → Nat → List UInt8
  | 0, _ => []
  | size + 1, n => UInt8.ofNat n :: encode size (n / 256)

@[simp] theorem length_encode (size n : Nat) : (encode size n).length = size := by
  induction size generalizing n with
  | zero => rfl
  | succ size ih => rw [encode, List.length_cons, ih]

theorem decode_encode {size n : Nat} (h : n < 256 ^ size) : decode (encode size n) = n := by
  induction size generalizing n with
  | zero =>
    rw [Nat.pow_zero] at h
    simp only [encode, decode]
    omega
  | succ size ih =>
    rw [Nat.pow_succ] at h
    rw [encode, decode, ih (by omega), UInt8.toNat_ofNat']
    omega

theorem decode_lt (bs : List UInt8) : decode bs < 256 ^ bs.length := by
  induction bs with
  | nil => simp [decode]
  | cons b bs ih =>
    have hb : b.toNat < 256 := b.toNat_lt
    rw [decode, List.length_cons, Nat.pow_succ]
    omega

theorem encode_decode (bs : List UInt8) : encode bs.length (decode bs) = bs := by
  induction bs with
  | nil => rfl
  | cons b bs ih =>
    have hb : b.toNat < 256 := b.toNat_lt
    have hhead : UInt8.ofNat (b.toNat + 256 * decode bs) = b := by
      apply UInt8.toNat_inj.mp
      rw [UInt8.toNat_ofNat']
      omega
    rw [List.length_cons, decode, encode, hhead, show (b.toNat + 256 * decode bs) / 256 =
      decode bs by omega, ih]

end LittleEndian

/-- A file, with the largest offset its file system has (`off_t` has 64 bits). -/
structure ByteFile where
  bytes : List UInt8
  maxOffset : Nat
  length_le : bytes.length ≤ maxOffset
  maxOffset_lt : maxOffset < 2 ^ 63

structure Cursor where
  pos : Nat := 0
  /-- the passes of the loops -/
  iterations : Nat := 0
  deriving DecidableEq

def Reader (ε α : Type) := ByteFile → Cursor → Except ε α × Cursor

namespace Reader

variable {ε α β σ ι : Type}

def ret (a : α) : Reader ε α := fun _ c => (.ok a, c)

def raise (e : ε) : Reader ε α := fun _ c => (.error e, c)

def bind (p : Reader ε α) (k : α → Reader ε β) : Reader ε β := fun f c =>
  match p f c with
  | (.ok a, c') => k a f c'
  | (.error e, c') => (.error e, c')

instance : Monad (Reader ε) where
  pure := ret
  bind := bind

/-- `read(n)`: at most `n` bytes. -/
def read (n : Nat) : Reader ε (List UInt8) := fun f c =>
  let data := (f.bytes.drop c.pos).take n
  (.ok data, { c with pos := c.pos + data.length })

/-- `seek(n, 1)`; a position that the file system does not have raises. -/
def seek (n : Nat) (e : ε) : Reader ε Unit := fun f c =>
  if c.pos + n ≤ f.maxOffset then (.ok (), { c with pos := c.pos + n }) else (.error e, c)

/-- A pass begins. -/
def tick : Reader ε Unit := fun _ c => (.ok (), { c with iterations := c.iterations + 1 })

/-- `for _ in range(n)`. -/
def forRange (body : σ → Reader ε σ) : Nat → σ → Reader ε σ
  | 0, s => ret s
  | n + 1, s => tick.bind fun _ => (body s).bind (forRange body n)

variable {p : Reader ε α} {k : α → Reader ε β} {f : ByteFile} {c c' : Cursor}
  {a : α} {b : β} {e : ε}

@[simp] theorem pure_eq_ret (a : α) : (Pure.pure a : Reader ε α) = ret a := rfl

@[simp] theorem bind_eq_bind (p : Reader ε α) (k : α → Reader ε β) : p >>= k = p.bind k := rfl

theorem bind_ok_of (h : p f c = (.ok a, c')) : p.bind k f c = k a f c' := by
  simp only [bind, h]

theorem bind_error_of (h : p f c = (.error e, c')) : p.bind k f c = (.error e, c') := by
  simp only [bind, h]

theorem bind_ok (h : p.bind k f c = (.ok b, c')) :
    ∃ a c₁, p f c = (.ok a, c₁) ∧ k a f c₁ = (.ok b, c') := by
  cases hp : p f c with
  | mk r c₁ =>
    cases r with
    | ok a => exact ⟨a, c₁, rfl, by rwa [bind_ok_of hp] at h⟩
    | error e =>
      rw [bind_error_of hp] at h
      cases h

/-! ## What is read when it is there -/

/-- `enc` stands at `pos`, its last `tail` bytes apart. -/
def Has (f : ByteFile) (pos : Nat) (enc : List UInt8) (tail : Nat) : Prop :=
  enc.take (enc.length - tail) <+: f.bytes.drop pos

def Reads (p : Reader ε α) (enc : List UInt8) (tail : Nat) (a : α) : Prop :=
  ∀ f c, Has f c.pos enc tail → c.pos + enc.length ≤ f.maxOffset →
    ∃ i, p f c = (.ok a, ⟨c.pos + enc.length, i⟩)

theorem Has.mono {pos : Nat} {enc : List UInt8} {t t' : Nat} (h : Has f pos enc t) (ht : t ≤ t') :
    Has f pos enc t' :=
  (List.take_prefix_take_left (by omega)).trans h

theorem Has.left {pos : Nat} {e₁ e₂ : List UInt8} {t : Nat} (h : Has f pos (e₁ ++ e₂) t)
    (ht : t ≤ e₂.length) : Has f pos e₁ 0 := by
  unfold Has at h ⊢
  rw [List.length_append, Nat.add_sub_assoc ht, List.take_append,
    List.take_of_length_le (by omega)] at h
  rw [Nat.sub_zero, List.take_length]
  exact (List.prefix_append _ _).trans h

theorem Has.right {pos : Nat} {e₁ e₂ : List UInt8} {t : Nat} (h : Has f pos (e₁ ++ e₂) t)
    (ht : t ≤ e₂.length) : Has f (pos + e₁.length) e₂ t := by
  unfold Has at h ⊢
  rw [List.length_append, Nat.add_sub_assoc ht, List.take_append, List.take_of_length_le (by omega),
    Nat.add_sub_cancel_left] at h
  obtain ⟨rest, hrest⟩ := h
  rw [← List.drop_drop, ← hrest, List.append_assoc, List.drop_left]
  exact List.prefix_append _ _

theorem Reads.mono {enc : List UInt8} {t t' : Nat} (h : Reads p enc t' a) (ht : t ≤ t') :
    Reads p enc t a :=
  fun f c hhas hle => h f c (hhas.mono ht) hle

theorem Reads.ret (a : α) : Reads (ret a : Reader ε α) [] 0 a :=
  fun _ c _ _ => ⟨c.iterations, rfl⟩

/-- What is done with the value costs nothing, at the very end of the file too. -/
theorem Reads.andThen {enc : List UInt8} {t : Nat} (hp : Reads p enc t a)
    (hk : k a = Reader.ret b) :
    Reads (p.bind k) enc t b := by
  intro f c hhas hle
  obtain ⟨i, hi⟩ := hp f c hhas hle
  exact ⟨i, by rw [bind_ok_of hi, hk]; rfl⟩

theorem Reads.bind {e₁ e₂ : List UInt8} {t : Nat} (hp : Reads p e₁ 0 a) (hk : Reads (k a) e₂ t b)
    (ht : t ≤ e₂.length) : Reads (p.bind k) (e₁ ++ e₂) t b := by
  intro f c hhas hle
  rw [List.length_append] at hle
  obtain ⟨i, hp⟩ := hp f c (hhas.left ht) (by omega)
  obtain ⟨j, hk⟩ := hk f ⟨c.pos + e₁.length, i⟩ (hhas.right ht)
      (by show c.pos + e₁.length + e₂.length ≤ _; omega)
  refine ⟨j, ?_⟩
  rw [bind_ok_of hp, hk, List.length_append, Nat.add_assoc]

/-- The tail of the last item. -/
def lastTail (tail : ι → Nat) (items : List ι) : Nat := (items.getLast?.map tail).getD 0

theorem lastTail_cons (tail : ι → Nat) (x : ι) (items : List ι) :
    lastTail tail (x :: items) = if items = [] then tail x else lastTail tail items := by
  cases items with
  | nil => rfl
  | cons y items => simp [lastTail]

theorem lastTail_le {tail : ι → Nat} {enc : ι → List UInt8} {items : List ι}
    (h : ∀ x ∈ items, tail x ≤ (enc x).length) :
    lastTail tail items ≤ (items.flatMap enc).length := by
  induction items with
  | nil => exact Nat.le_refl 0
  | cons x items ih =>
    have hx := h x List.mem_cons_self
    have hrest := ih fun y hy => h y (List.mem_cons_of_mem x hy)
    rw [lastTail_cons, List.flatMap_cons, List.length_append]
    split <;> omega

/-- A loop over the items that stand at the cursor. -/
theorem Reads.forRange {body : σ → Reader ε σ} {enc : ι → List UInt8} {tail : ι → Nat}
    {next : σ → ι → σ} {items : List ι} (htail : ∀ x ∈ items, tail x ≤ (enc x).length)
    (hbody : ∀ x ∈ items, ∀ s, Reads (body s) (enc x) (tail x) (next s x)) (s : σ) :
    Reads (forRange body items.length s) (items.flatMap enc) (lastTail tail items)
      (items.foldl next s) := by
  induction items generalizing s with
  | nil => exact Reads.ret s
  | cons x items ih =>
    have hx := htail x List.mem_cons_self
    have hrest := ih (fun y hy => htail y (List.mem_cons_of_mem x hy))
      (fun y hy => hbody y (List.mem_cons_of_mem x hy)) (next s x)
    intro f c hhas hle
    have hpass : Reads ((body s).bind (Reader.forRange body items.length))
        (enc x ++ items.flatMap enc)
        (lastTail tail (x :: items)) (items.foldl next (next s x)) := by
      rw [lastTail_cons]
      by_cases hnil : items = []
      · -- the last pass may go past the end
        subst hnil
        rw [if_pos rfl, List.flatMap_nil, List.append_nil]
        exact (hbody x List.mem_cons_self s).andThen rfl
      · rw [if_neg hnil]
        exact ((hbody x List.mem_cons_self s).mono (Nat.zero_le _)).bind hrest
          (lastTail_le fun y hy => htail y (List.mem_cons_of_mem x hy))
    exact hpass f { c with iterations := c.iterations + 1 } hhas hle

/-! ## What was there when it was read -/

/-- `enc` stands at `pos`, as far as the file goes. -/
def Agrees (f : ByteFile) (pos : Nat) (enc : List UInt8) : Prop :=
  enc.take (f.bytes.length - pos) <+: f.bytes.drop pos

theorem Agrees.nil (f : ByteFile) (pos : Nat) : Agrees f pos [] := by
  simp [Agrees]

theorem Agrees.append {pos : Nat} {e₁ e₂ : List UInt8} (h₁ : Agrees f pos e₁)
    (h₂ : Agrees f (pos + e₁.length) e₂) : Agrees f pos (e₁ ++ e₂) := by
  unfold Agrees at h₁ h₂ ⊢
  rw [List.take_append]
  rcases Nat.lt_or_ge (f.bytes.length - pos) e₁.length with hlt | hge
  · rw [show f.bytes.length - pos - e₁.length = 0 by omega, List.take_zero, List.append_nil]
    exact h₁
  · rw [List.take_of_length_le hge] at h₁ ⊢
    obtain ⟨rest, hrest⟩ := h₁
    rw [← List.drop_drop, ← hrest, List.drop_left, Nat.sub_add_eq] at h₂
    rw [← hrest]
    exact (List.prefix_append_right_inj e₁).mpr h₂

def Sound (p : Reader ε α) (Q : α → List UInt8 → Nat → Prop) : Prop :=
  ∀ f c a c', c.pos ≤ f.bytes.length → p f c = (.ok a, c') →
    ∃ enc tail, Q a enc tail ∧ Agrees f c.pos enc ∧ c'.pos = c.pos + enc.length ∧
      c'.pos ≤ f.bytes.length + tail ∧ c'.pos ≤ f.maxOffset

/-- `p` raises when the cursor stands behind the end. -/
def NeedsInput (p : Reader ε α) : Prop :=
  ∀ f c, f.bytes.length < c.pos → ∃ e c', p f c = (.error e, c')

theorem Sound.mono {Q Q' : α → List UInt8 → Nat → Prop} (h : Sound p Q)
    (hQ : ∀ a enc tail, Q a enc tail → Q' a enc tail) : Sound p Q' := by
  intro f c a c' hpos hp
  obtain ⟨enc, tail, hq, hrest⟩ := h f c a c' hpos hp
  exact ⟨enc, tail, hQ a enc tail hq, hrest⟩

theorem Sound.ret (a : α) : Sound (ret a : Reader ε α) fun a' enc tail => a' = a ∧
    enc = [] ∧ tail = 0 := by
  intro f c a' c' hpos hp
  cases hp
  exact ⟨[], 0, ⟨rfl, rfl, rfl⟩, .nil f c.pos, rfl, hpos, hpos.trans f.length_le⟩

theorem Sound.raise (e : ε) {Q : α → List UInt8 → Nat → Prop} : Sound (raise e : Reader ε α) Q := by
  intro f c a c' _ hp
  cases hp

theorem Sound.andThen {Q : α → List UInt8 → Nat → Prop} {g : α → β} (hp : Sound p Q)
    (hk : ∀ a, k a = Reader.ret (g a)) :
    Sound (p.bind k) fun b enc tail => ∃ a, Q a enc tail ∧ b = g a := by
  intro f c b c' hpos hb
  obtain ⟨a, c₁, ha, hb⟩ := bind_ok hb
  rw [hk a] at hb
  cases hb
  obtain ⟨enc, tail, hq, hrest⟩ := hp f c a c' hpos ha
  exact ⟨enc, tail, ⟨a, hq, rfl⟩, hrest⟩

theorem Sound.bind {Q₁ : α → List UInt8 → Prop} {Q₂ : α → β → List UInt8 → Nat → Prop}
    (hp : Sound p fun a enc tail => Q₁ a enc ∧ tail = 0) (hk : ∀ a, Sound (k a) (Q₂ a)) :
    Sound (p.bind k) fun b enc tail => ∃ a e₁ e₂, Q₁ a e₁ ∧ Q₂ a b e₂ tail ∧ enc = e₁ ++ e₂ := by
  intro f c b c' hpos hb
  obtain ⟨a, c₁, ha, hb⟩ := bind_ok hb
  obtain ⟨e₁, t₁, ⟨hq₁, rfl⟩, hag₁, heq₁, hle₁, -⟩ := hp f c a c₁ hpos ha
  obtain ⟨e₂, t₂, hq₂, hag₂, heq₂, hle₂⟩ := hk a f c₁ b c' hle₁ hb
  rw [heq₁] at hag₂
  refine ⟨e₁ ++ e₂, t₂, ⟨a, e₁, e₂, hq₁, hq₂, rfl⟩, hag₁.append hag₂, ?_, hle₂⟩
  rw [heq₂, heq₁, List.length_append, Nat.add_assoc]

theorem NeedsInput.bind (h : NeedsInput p) : NeedsInput (p.bind k) := by
  intro f c hc
  obtain ⟨e, c', hp⟩ := h f c hc
  exact ⟨e, c', bind_error_of hp⟩

/-- A loop whose passes begin with something that is read. -/
theorem Sound.forRange {body : σ → Reader ε σ} {item : ι → Prop} {enc : ι → List UInt8}
    {tail : ι → Nat} {next : σ → ι → σ} (hneeds : ∀ s, NeedsInput (body s)) (hbody : ∀ s,
      Sound (body s) fun s' e t => ∃ x, item x ∧ s' = next s x ∧ e = enc x ∧ t = tail x)
      (n : Nat) (s : σ) :
    Sound (Reader.forRange body n s) fun s' e t => ∃ items, items.length = n ∧
      (∀ x ∈ items, item x) ∧
      s' = items.foldl next s ∧ e = items.flatMap enc ∧ t = lastTail tail items := by
  induction n generalizing s with
  | zero =>
    refine (Sound.ret s).mono ?_
    rintro s' e t ⟨rfl, rfl, rfl⟩
    exact ⟨[], rfl, by simp, rfl, rfl, rfl⟩
  | succ n ih =>
    intro f c s'' c' hpos hloop
    obtain ⟨_, c₀, htick, hloop⟩ := bind_ok hloop
    cases htick
    obtain ⟨s', c₁, hpass, hloop⟩ := bind_ok hloop
    obtain ⟨e₁, t₁, ⟨x, hx, rfl, rfl, rfl⟩, hag₁, heq₁, hle₁⟩ :=
      hbody s f { c with iterations := c.iterations + 1 } s' c₁ hpos hpass
    have hin : n ≠ 0 → c₁.pos ≤ f.bytes.length := by
      intro hn
      by_contra hout
      obtain ⟨m, rfl⟩ := Nat.exists_eq_succ_of_ne_zero hn
      obtain ⟨_, c₂, htick, hloop⟩ := bind_ok hloop
      cases htick
      obtain ⟨s₂, c₃, hnext, -⟩ := bind_ok hloop
      obtain ⟨e, c₄, herr⟩ :=
        hneeds (next s x) f { c₁ with iterations := c₁.iterations + 1 } (Nat.lt_of_not_le hout)
      rw [hnext] at herr
      cases herr
    by_cases hn : n = 0
    · subst hn
      cases hloop
      refine ⟨enc x, tail x, ⟨[x], rfl, by simpa using hx, rfl, by simp, rfl⟩, hag₁, heq₁, hle₁⟩
    · obtain ⟨e₂, t₂, ⟨items, hlen, hitems, hs, rfl, rfl⟩, hag₂, heq₂, hle₂⟩ :=
        ih (next s x) f c₁ s'' c' (hin hn) hloop
      have hne : items ≠ [] := by
        rintro rfl
        exact hn hlen.symm
      have hag : Agrees f c.pos (enc x ++ items.flatMap enc) := hag₁.append (by rwa [heq₁] at hag₂)
      refine ⟨enc x ++ items.flatMap enc, lastTail tail (x :: items),
        ⟨x :: items, by rw [List.length_cons, hlen], ?_, hs, rfl, rfl⟩, hag, ?_, ?_⟩
      · intro y hy
        rcases List.mem_cons.mp hy with rfl | hy
        · exact hx
        · exact hitems y hy
      · rw [heq₂, heq₁, List.length_append, Nat.add_assoc]
      · rw [lastTail_cons, if_neg hne]
        exact hle₂

/-! ## What it costs -/

def unread (f : ByteFile) (c : Cursor) : Nat := f.bytes.length - c.pos

/-- Whatever `p` does, a pass costs `w` bytes, `d` bytes are paid beforehand, and what it raises is
in `E`. -/
def Paid (E : ε → Prop) (w d : Nat) (p : Reader ε α) : Prop :=
  ∀ f c,
    (∀ a c', p f c = (.ok a, c') →
      w * c'.iterations + unread f c' + d ≤ w * c.iterations + unread f c) ∧
    (∀ e c', p f c = (.error e, c') →
      E e ∧ w * c'.iterations + d ≤ w * c.iterations + unread f c + w)

variable {E : ε → Prop} {w d : Nat}

theorem Paid.ret (a : α) : Paid E w 0 (ret a : Reader ε α) := by
  intro f c
  refine ⟨fun a' c' h => ?_, fun e c' h => ?_⟩
  · cases h
    exact Nat.le_refl _
  · cases h

theorem Paid.raise {e : ε} (he : E e) : Paid E w 0 (raise e : Reader ε α) := by
  intro f c
  refine ⟨fun a' c' h => ?_, fun e c' h => ?_⟩
  · cases h
  · cases h
    exact ⟨he, by omega⟩

theorem Paid.zero (h : Paid E w d p) : Paid E w 0 p := by
  intro f c
  obtain ⟨hok, herr⟩ := h f c
  refine ⟨fun a c' h => ?_, fun e c' h => ?_⟩
  · have := hok a c' h
    omega
  · have := herr e c' h
    exact ⟨this.1, by omega⟩

theorem Paid.seek {e : ε} (n : Nat) (he : E e) : Paid E w 0 (seek n e : Reader ε Unit) := by
  intro f c
  unfold Reader.seek
  split
  · refine ⟨fun a' c' h => ?_, fun e c' h => ?_⟩
    · cases h
      simp only [unread]
      omega
    · cases h
  · refine ⟨fun a' c' h => ?_, fun e c' h => ?_⟩
    · cases h
    · cases h
      exact ⟨he, by omega⟩

theorem Paid.bind (hp : Paid E w d p) (hk : ∀ a, Paid E w 0 (k a)) : Paid E w d (p.bind k) := by
  intro f c
  cases h : p f c with
  | mk r c₁ =>
    cases r with
    | ok a =>
      rw [bind_ok_of h]
      have hfirst := (hp f c).1 a c₁ h
      refine ⟨fun b c' hb => ?_, fun e c' he => ?_⟩
      · have hsecond := (hk a f c₁).1 b c' hb
        omega
      · have hsecond := (hk a f c₁).2 e c' he
        exact ⟨hsecond.1, by omega⟩
    | error e =>
      rw [bind_error_of h]
      refine ⟨fun b c' hb => (by cases hb), fun e' c' he => ?_⟩
      cases he
      exact (hp f c).2 e c₁ h

/-- A loop whose passes pay for themselves. -/
theorem Paid.forRange {body : σ → Reader ε σ} (hbody : ∀ s, Paid E w w (body s)) (n : Nat) (s : σ) :
    Paid E w 0 (Reader.forRange body n s) := by
  induction n generalizing s with
  | zero => exact Paid.ret s
  | succ n ih =>
    intro f c
    have hpass := (hbody s).bind ih f { c with iterations := c.iterations + 1 }
    rw [show Reader.forRange body (n + 1) s f c =
      (body s).bind (Reader.forRange body n) f { c with iterations := c.iterations + 1 } from rfl]
    refine ⟨fun b c' hb => ?_, fun e c' he => ?_⟩
    · have hok := hpass.1 b c' hb
      simp only [unread, Nat.mul_add, Nat.mul_one] at hok ⊢
      omega
    · have herr := hpass.2 e c' he
      simp only [unread, Nat.mul_add, Nat.mul_one] at herr ⊢
      exact ⟨herr.1, by omega⟩

end Reader
