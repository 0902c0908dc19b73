import Apiary.Proofs.Script.Seam
import Apiary.Proofs.Source.Bounds

/-!
What a rule leaves of the tokens, and when its bound is not reached. One law for each combinator, and one for the rounds
of a loop.
-/

namespace Apiary

theorem Lexeme.weight_pos (l : Lexeme) : 0 < l.weight := by
  cases l with
  | template parts => exact Nat.lt_of_lt_of_le Nat.zero_lt_one (Nat.le_add_right 1 _)
  | _ => exact Nat.zero_lt_one

namespace Tokens

/-- The tokens from a position on. -/
def past (all : Tokens) (i : Nat) : Tokens := { all with ahead := all.ahead.drop i }

/-- `us` are the tokens after some of `ts`, after one at least if it `must` be. -/
def Further (must : Prop) (ts us : Tokens) : Prop := ∃ i ≤ ts.ahead.length, (must → 0 < i) ∧ us = ts.past i

variable {must must' : Prop} {ts us vs : Tokens} {l : Lexeme}

theorem past_past (ts : Tokens) (i j : Nat) : (ts.past i).past j = ts.past (i + j) := by
  simp [past, List.drop_drop]

theorem length_past (ts : Tokens) (i : Nat) : (ts.past i).ahead.length = ts.ahead.length - i := List.length_drop

theorem advance_past (ts : Tokens) (i : Nat) : (ts.past i).advance = ts.past (i + 1) := by
  simp [past, advance, List.tail_drop]

theorem weight_past (ts : Tokens) {i : Nat} (hi : i ≤ ts.ahead.length) : (ts.past i).weight + i ≤ ts.weight := by
  obtain ⟨ks, last, newline⟩ := ts
  induction ks generalizing i with
  | nil =>
    cases Nat.le_zero.mp hi
    exact Nat.le_refl _
  | cons t ks ih =>
    cases i with
    | zero => exact Nat.le_refl _
    | succ i =>
      have hrest := ih (Nat.le_of_succ_le_succ hi)
      have hpos := t.lexeme.weight_pos
      simp only [past, weight, List.drop_succ_cons, List.map_cons, List.sum_cons] at hrest ⊢
      omega

namespace Further

theorem refl (ts : Tokens) : Further False ts ts := ⟨0, Nat.zero_le _, False.elim, rfl⟩

theorem trans (h : Further must ts us) (h' : Further must' us vs) : Further (must ∨ must') ts vs := by
  obtain ⟨i, hi, hpos, rfl⟩ := h
  obtain ⟨j, hj, hpos', rfl⟩ := h'
  rw [length_past] at hj
  refine ⟨i + j, by omega, ?_, past_past ts i j⟩
  rintro (hm | hm)
  · exact Nat.add_pos_left (hpos hm) j
  · exact Nat.add_pos_right i (hpos' hm)

theorem mono (h : Further must ts us) (hm : must' → must) : Further must' ts us := by
  obtain ⟨i, hi, hpos, rfl⟩ := h
  exact ⟨i, hi, hpos ∘ hm, rfl⟩

theorem advance (h : ts.ahead ≠ []) : Further must ts ts.advance :=
  ⟨1, List.length_pos_of_ne_nil h, fun _ => Nat.one_pos, advance_past ts 0⟩

theorem advance_or_end (ts : Tokens) : Further False ts ts.advance := by
  by_cases h : ts.ahead = []
  · have hsame : ts.advance = ts := by rw [Tokens.advance, h, List.tail_nil, ← h]
    exact hsame.symm ▸ refl ts
  · exact advance h

theorem weight_le (h : Further must ts us) : us.weight ≤ ts.weight := by
  obtain ⟨i, hi, -, rfl⟩ := h
  exact Nat.le_of_add_right_le (ts.weight_past hi)

theorem weight_lt (h : Further True ts us) : us.weight < ts.weight := by
  obtain ⟨i, hi, hpos, rfl⟩ := h
  have := ts.weight_past hi
  have := hpos trivial
  omega

end Further

theorem ne_nil_of_isMark {m : Mark} (h : ts.isMark m = true) : ts.ahead ≠ [] := ne_nil_of_head (isMark_iff.mp h)

theorem ne_nil_of_isWord {w : String} (h : ts.isWord w = true) : ts.ahead ≠ [] := ne_nil_of_head (isWord_iff.mp h)

theorem surprise_ne (ts : Tokens) : ts.surprise ≠ .tooLong := by
  unfold surprise
  split <;> nofun

end Tokens

namespace Parse

/-- From `ts`, the rule leaves the tokens that come after some of them, after one at least if it `must` take one. It is
not cut short by a bound when they weigh less than `n`. -/
structure Takes {α : Type} (must : Prop) (n : Nat) (p : Parse α) (ts : Tokens) : Prop where
  further {a : α} {us : Tokens} : p ts = .ok (a, us) → ts.Further must us
  settled : ts.weight < n → Settled (p ts)

namespace Takes

variable {α β : Type} {must must' : Prop} {n m : Nat} {p q : Parse α} {f : α → Parse β} {ts : Tokens}

theorem congr (hq : Takes must n q ts) (h : p ts = q ts) : Takes must n p ts := ⟨h ▸ hq.further, h ▸ hq.settled⟩

theorem mono (h : Takes must n p ts) (hle : m ≤ n) : Takes must m p ts :=
  ⟨h.further, fun hm => h.settled (Nat.lt_of_lt_of_le hm hle)⟩

theorem later (h : Takes must n p ts) : Takes must (n - 1) p ts := h.mono (Nat.sub_le n 1)

theorem weaken (h : Takes must n p ts) (hm : must' → must) : Takes must' n p ts :=
  ⟨fun hp => (h.further hp).mono hm, h.settled⟩

theorem any (h : Takes True n p ts) : Takes must n p ts := h.weaken fun _ => trivial

theorem zero (fault : SourceFault) : Takes must 0 (Parse.fail fault : Parse α) ts where
  further h := by cases h
  settled h := absurd h (Nat.not_lt_zero _)

theorem fail {fault : SourceFault} (h : fault ≠ .tooLong) : Takes must n (Parse.fail fault : Parse α) ts where
  further h := by cases h
  settled := by
    intro _ p hp
    cases hp
    exact h rfl

theorem unexpected : Takes must n (Parse.unexpected : Parse α) ts where
  further h := by cases h
  settled := by
    intro _ p hp
    exact ts.surprise_ne (congrArg SourceError.fault (Except.error.inj hp))

theorem pure (a : α) : Takes False n (Pure.pure a) ts where
  further h := by
    cases h
    exact .refl ts
  settled _ := settled_ok _

theorem ite {c : Prop} [Decidable c] (hp : c → Takes must n p ts) (hq : ¬ c → Takes must n q ts) :
    Takes must n (if c then p else q) ts := by
  split
  next h => exact hp h
  next h => exact hq h

/-- A rule that fails where another one does, and in the same way. -/
theorem refused {p : Parse β} {e : SourceError} (hq : Takes must' n q ts) (h : q ts = .error e) (hp : p ts = .error e) :
    Takes must n p ts where
  further h := by
    rw [hp] at h
    cases h
  settled hn pos he := by
    rw [hp] at he
    exact hq.settled hn pos (h.trans (Except.error.inj he ▸ rfl))

/-- A rule that goes on as another one does, further on. -/
theorem resume {us : Tokens} (hus : ts.Further must us) (h : p ts = q us) (hq : Takes must' m q us)
    (hm : ts.weight < n → us.weight < m) : Takes (must ∨ must') n p ts where
  further hp := hus.trans (hq.further (h ▸ hp))
  settled hn := h ▸ hq.settled (hm hn)

theorem seq (hp : Takes must n p ts) (hf : ∀ a us, Takes must' m (f a) us)
    (hm : ∀ us : Tokens, ts.Further must us → ts.weight < n → us.weight < m) :
    Takes (must ∨ must') n (p >>= f) ts := by
  cases h : p ts with
  | error e => exact hp.refused h (by simp only [Bind.bind, h])
  | ok r =>
    have hr := hp.further h
    exact resume hr (by simp only [Bind.bind, h]) (hf r.1 r.2) (hm _ hr)

theorem bind (hp : Takes must' n p ts) (hf : ∀ a us, Takes must n (f a) us) : Takes must n (p >>= f) ts := by
  have h := hp.seq hf fun us hus hn => Nat.lt_of_le_of_lt hus.weight_le hn
  exact h.weaken .inr

theorem first (hp : Takes True n p ts) (hf : ∀ a us, Takes False n (f a) us) : Takes must n (p >>= f) ts := by
  have h := hp.seq hf fun us hus hn => Nat.lt_of_le_of_lt hus.weight_le hn
  exact h.weaken fun _ => .inl trivial

theorem andThen (hp : Takes True n p ts) (hf : ∀ a us, Takes False (n - 1) (f a) us) :
    Takes must n (p >>= f) ts := by
  have h := hp.seq hf fun us hus hn => by
    have := hus.weight_lt
    omega
  exact h.weaken fun _ => .inl trivial

theorem map {f : α → β} (hp : Takes must n p ts) : Takes must n (f <$> p) ts := by
  have h := hp.seq (f := Pure.pure ∘ f) (fun a us => pure (f a)) fun us hus hn => Nat.lt_of_le_of_lt hus.weight_le hn
  exact h.weaken .inl

theorem look {γ : Type} {g : Tokens → γ} {f : γ → Parse β} (hf : Takes must n (f (g ts)) ts) :
    Takes must n (Parse.look g >>= f) ts := hf.congr (look_bind g f ts)

/-- A rule that takes one token and then does what another one does. -/
theorem step (hne : ts.ahead ≠ []) (h : p ts = q ts.advance) (hq : Takes False (n - 1) q ts.advance) :
    Takes must n p ts := by
  have hus : ts.Further True ts.advance := .advance hne
  have hless := hus.weight_lt
  have h := resume (n := n) hus h hq fun hn => by omega
  exact h.weaken fun _ => .inl trivial

theorem take {f : Unit → Parse β} (hne : ts.ahead ≠ []) (hf : Takes False (n - 1) (f ()) ts.advance) :
    Takes must n (Parse.advance >>= f) ts := step hne (advance_bind f ts) hf

theorem advance : Takes False n Parse.advance ts where
  further h := by
    cases h
    exact .advance_or_end ts
  settled _ := settled_ok _

/-- A token of which the rest is read on its own. -/
theorem takeLift {r : Except SourceError α} (hne : ts.ahead ≠ []) (hr : ts.weight < n → Settled r)
    (hf : ∀ a, Takes False (n - 1) (f a) ts.advance) :
    Takes must n (Parse.advance >>= fun _ => Rules.lift r >>= f) ts := by
  cases r with
  | error e =>
    refine ⟨fun h => ?_, fun hn pos he => hr hn pos (congrArg Except.error (Except.error.inj he))⟩
    cases h
  | ok a => exact step hne rfl (hf a)

/-- A rule that takes a token which passes a test, and does something else otherwise. -/
theorem branch {c : Bool} {y : Parse α} (h : p ts = if c then y ts.advance else q ts) (hc : c = true → ts.ahead ≠ [])
    (hy : Takes False (n - 1) y ts.advance) (hq : Takes must n q ts) : Takes must n p ts := by
  cases c with
  | true => exact step (hc rfl) h hy
  | false => exact hq.congr h

section Mark

variable {k : Mark}

theorem eat {f : Bool → Parse β} (hyes : Takes False (n - 1) (f true) ts.advance) (hno : Takes must n (f false) ts) :
    Takes must n (Parse.eat k >>= f) ts := branch (eat_bind k f ts) Tokens.ne_nil_of_isMark hyes hno

theorem mayEat : Takes False n (Parse.eat k) ts :=
  (eat (.pure true) (.pure false)).congr (eat_bind k Pure.pure ts).symm

theorem expect : Takes True n (Parse.expect k) ts :=
  branch (y := Pure.pure ()) rfl Tokens.ne_nil_of_isMark (.pure ()) .unexpected

theorem semicolon : Takes False n Parse.semicolon ts := by
  have hends : Takes False n (if endsStatement ts then Pure.pure () else Parse.unexpected) ts :=
    .ite (fun _ => .pure ()) fun _ => .unexpected
  refine branch (c := ts.isMark .semicolon) (y := Pure.pure ()) ?_ Tokens.ne_nil_of_isMark (.pure ()) hends
  unfold Parse.semicolon
  split
  · rfl
  · split <;> rfl

end Mark

section Word

variable {w : String}

theorem eatWord {f : Bool → Parse β} (hyes : Takes False (n - 1) (f true) ts.advance) (hno : Takes must n (f false) ts) :
    Takes must n (Parse.eatWord w >>= f) ts := branch (eatWord_bind w f ts) Tokens.ne_nil_of_isWord hyes hno

theorem mayEatWord : Takes False n (Parse.eatWord w) ts :=
  (eatWord (.pure true) (.pure false)).congr (eatWord_bind w Pure.pure ts).symm

theorem expectWord : Takes True n (Parse.expectWord w) ts :=
  branch (y := Pure.pure ()) rfl Tokens.ne_nil_of_isWord (.pure ()) .unexpected

theorem propertyName : Takes True n Parse.propertyName ts := by
  cases hl : ts.head? with
  | none => exact unexpected.congr (by simp [Parse.propertyName, hl])
  | some l =>
    cases l with
    | name a => exact step (Tokens.ne_nil_of_head hl) (by simp [Parse.propertyName, hl, pure_apply]) (pure a)
    | _ => exact unexpected.congr (by simp [Parse.propertyName, hl])

theorem identifier : Takes True n Parse.identifier ts := by
  cases hl : ts.head? with
  | none => exact unexpected.congr (by simp [Parse.identifier, hl])
  | some l =>
    cases l with
    | name a =>
      by_cases ha : isReserved a = true
      · exact unexpected.congr (by simp [Parse.identifier, hl, ha])
      · exact step (Tokens.ne_nil_of_head hl) (by simp [Parse.identifier, hl, ha, pure_apply]) (pure a)
    | _ => exact unexpected.congr (by simp [Parse.identifier, hl])

end Word

end Takes

/-- What a round of a loop does from `ts`, for any bound on the rounds after it: the loop ends, or it goes on in the
same way from tokens further on. -/
inductive Round {σ α : Type} (loop : σ → Nat → Parse α) (must : Prop) (b : Nat) (round : Nat → Parse α) (ts : Tokens) :
    Prop
  | ends {p : Parse α} (last : Takes False b p ts) (same : ∀ n, round n ts = p ts) : Round loop must b round ts
  | again {s : σ} {f : α → α} {us : Tokens} (further : ts.Further must us)
    (same : ∀ n, round n ts = (f <$> loop s n) us) : Round loop must b round ts

/-- A loop with a bound on its rounds, of which each takes a token. -/
structure Rounds {σ α : Type} (b : Nat) (loop : σ → Nat → Parse α) : Prop where
  none (s : σ) : loop s 0 = fail .tooLong
  round (s : σ) (ts : Tokens) : Round loop True b (fun n => loop s (n + 1)) ts

namespace Round

variable {σ α β : Type} {loop : σ → Nat → Parse α} {must : Prop} {b : Nat} {k : Nat → β → Parse α} {ts : Tokens}

theorem stop {p : Parse α} (h : Takes False b p ts) : Round loop must b (fun _ => p) ts := .ends h fun _ => rfl

theorem go (s : σ) (f : α → α) : Round loop False b (fun n => f <$> loop s n) ts := .again (.refl ts) fun _ => rfl

theorem tail (s : σ) : Round loop False b (loop s) ts := by
  refine .again (.refl ts) (s := s) (f := id) fun n => ?_
  simp only [Functor.map]
  cases loop s n ts <;> rfl

theorem congr {p q : Nat → Parse α} (h : ∀ n, p n ts = q n ts) (hq : Round loop must b q ts) :
    Round loop must b p ts := by
  cases hq with
  | ends last same => exact .ends last fun n => (h n).trans (same n)
  | again further same => exact .again further fun n => (h n).trans (same n)

/-- A round that goes on further on. -/
theorem resume {p q : Nat → Parse α} {us : Tokens} (hus : ts.Further True us) (h : ∀ n, p n ts = q n us)
    (hq : Round loop False b q us) : Round loop must b p ts := by
  cases hq with
  | @ends q last same =>
    have hlast : Takes (True ∨ False) b (fun _ => q us) ts :=
      .resume hus rfl last (Nat.lt_of_le_of_lt hus.weight_le)
    exact .ends (hlast.weaken False.elim) fun n => (h n).trans (same n)
  | again further same =>
    exact .again ((hus.trans further).mono fun _ => .inl trivial) fun n => (h n).trans (same n)

theorem item {p : Parse β} (hp : Takes True b p ts) (hk : ∀ a us, Round loop False b (k · a) us) :
    Round loop must b (fun n => p >>= k n) ts := by
  cases h : p ts with
  | error e => exact .ends (hp.refused h (p := fun _ => .error e) rfl) fun n => by simp only [Bind.bind, h]
  | ok r => exact resume (hp.further h) (fun n => by simp only [Bind.bind, h]) (hk r.1 r.2)

theorem look {γ : Type} {g : Tokens → γ} {k : Nat → γ → Parse α} (h : Round loop must b (k · (g ts)) ts) :
    Round loop must b (fun n => Parse.look g >>= k n) ts := h.congr fun n => look_bind g (k n) ts

theorem ite {c : Prop} [Decidable c] {p q : Nat → Parse α} (hp : c → Round loop must b p ts)
    (hq : ¬ c → Round loop must b q ts) : Round loop must b (fun n => if c then p n else q n) ts := by
  split
  next h => exact hp h
  next h => exact hq h

theorem take {k : Nat → Unit → Parse α} (hne : ts.ahead ≠ []) (h : Round loop False b (k · ()) ts.advance) :
    Round loop must b (fun n => Parse.advance >>= k n) ts := h.resume (.advance hne) fun n => advance_bind (k n) ts

/-- A round that takes a token which passes a test, and does something else otherwise. -/
theorem branch {c : Bool} {p y q : Nat → Parse α} (h : ∀ n, p n ts = if c then y n ts.advance else q n ts)
    (hc : c = true → ts.ahead ≠ []) (hy : Round loop False b y ts.advance) (hq : Round loop must b q ts) :
    Round loop must b p ts := by
  cases c with
  | true => exact hy.resume (.advance (hc rfl)) h
  | false => exact hq.congr h

theorem eat {m : Mark} {k : Nat → Bool → Parse α} (hyes : Round loop False b (k · true) ts.advance)
    (hno : Round loop must b (k · false) ts) : Round loop must b (fun n => Parse.eat m >>= k n) ts :=
  branch (fun n => eat_bind m (k n) ts) Tokens.ne_nil_of_isMark hyes hno

theorem eatWord {w : String} {k : Nat → Bool → Parse α} (hyes : Round loop False b (k · true) ts.advance)
    (hno : Round loop must b (k · false) ts) : Round loop must b (fun n => Parse.eatWord w >>= k n) ts :=
  branch (fun n => eatWord_bind w (k n) ts) Tokens.ne_nil_of_isWord hyes hno

end Round

namespace Rounds

variable {σ α : Type} {loop : σ → Nat → Parse α} {b n : Nat} {ts : Tokens}

theorem mono {m : Nat} (h : Rounds b loop) (hle : m ≤ b) : Rounds m loop where
  none := h.none
  round s ts := by
    cases h.round s ts with
    | ends last same => exact .ends (last.mono hle) same
    | again further same => exact .again further same

/-- The bound on the rounds is not reached when it is as high as the bound on the tokens. -/
theorem takes (h : Rounds b loop) (s : σ) (hle : b ≤ n) : Takes False b (loop s n) ts := by
  -- a round that takes a token leaves less weight than before, so both bounds go down by one
  induction n generalizing b s ts with
  | zero =>
    cases Nat.le_zero.mp hle
    exact (Takes.zero .tooLong).congr (by rw [h.none])
  | succ n ih =>
    cases h.round s ts with
    | ends last same => exact last.congr (same n)
    | @again s' f us further same =>
      have hrest : Takes False (b - 1) (loop s' n) us := ih (h.mono (Nat.sub_le b 1)) s' (by omega)
      have hless := further.weight_lt
      exact (Takes.resume further (same n) hrest.map fun hb => by omega).weaken False.elim

end Rounds

section Loops

variable {α : Type} {b : Nat} {item : Parse α}

theorem commaList_rounds {stop : Mark} (hitem : ∀ ts, Takes True b item ts) :
    Rounds b fun (_ : Unit) n => commaList stop item n where
  none _ := rfl
  round _ ts := by
    refine .look (.ite (fun _ => .stop (.pure _)) fun _ => .item (hitem ts) fun a us => ?_)
    exact .eat (.go () (a :: ·)) (.stop (.pure _))

theorem listUntil_rounds {stop : Tokens → Bool} (hitem : ∀ ts, Takes True b item ts) :
    Rounds b fun (_ : Unit) n => listUntil stop item n where
  none _ := rfl
  round _ ts := by
    refine .look (.ite (fun _ => .stop (.pure _)) fun _ => .look (.ite (fun _ => .stop .unexpected) fun _ => ?_))
    exact .item (hitem ts) fun a us => .go () (a :: ·)

end Loops

end Parse

end Apiary
