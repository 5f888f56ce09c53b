import DecafCheck.Proofs.Grammar.Growing
import DecafCheck.Proofs.Grammar.Lookahead
import DecafCheck.Proofs.Tree.Planting

namespace DecafCheck

namespace Cursor

variable {c d e : Cursor} {m n : Nat}

/-- The place `d` lies behind `c`, by `least` tokens or more. -/
def Leads (least : Nat) (c d : Cursor) : Prop :=
  ∃ k, least ≤ k ∧ c.Reaches k ∧ d = c.forward k

theorem leads_refl (h : c.Reaches 0) : Leads 0 c c :=
  ⟨0, Nat.le_refl 0, h, rfl⟩

theorem Leads.trans (h : Leads m c d) (h' : Leads n d e) : Leads (m + n) c e := by
  obtain ⟨j, hj, hreach, rfl⟩ := h
  obtain ⟨k, hk, hreach', rfl⟩ := h'
  exact ⟨j + k, Nat.add_le_add hj hk, (reaches_forward hreach).mp hreach', (forward_add c j k).symm⟩

theorem Leads.weaken (h : Leads m c d) (hle : n ≤ m) : Leads n c d := by
  obtain ⟨k, hk, hrest⟩ := h
  exact ⟨k, Nat.le_trans hle hk, hrest⟩

theorem Leads.reaches (h : Leads m c d) : d.Reaches 0 := by
  obtain ⟨k, -, hreach, rfl⟩ := h
  exact (reaches_forward hreach).mpr hreach

theorem Leads.length_le (h : Leads m c d) : d.ahead.length + m ≤ c.ahead.length := by
  obtain ⟨k, hk, hreach, rfl⟩ := h
  have hle := hreach.1
  rw [ahead_forward, List.length_drop]
  omega

theorem length_pos_of_current {t : Token} (ht : c.current = some t) : 0 < c.ahead.length := by
  obtain ⟨_ | ⟨l, rest⟩, invalid, length, previous⟩ := c
  · cases ht
  · exact Nat.zero_lt_succ _

end Cursor

theorem Parser.Local.leads {α : Type} {A : Cursor → Prop} {least b b' : Nat} {p q : Parser α}
    (h : Local A least b b' p q) {c d : Cursor} (hA : A c) (hc : c.Reaches 0)
    (hb : c.ahead.length < b) {a : α} (hrun : p.run c = .ok (a, d)) : c.Leads least d := by
  have hbeyond := (h.alike hA hc hb (Cursor.mirrors_zero (d := c))).beyond_zero
  rw [hrun] at hbeyond
  cases hbeyond with
  | ok hleast _ hreach => exact ⟨_, hleast, hreach, rfl⟩

namespace Parser

variable {α : Type} {c : Cursor}

/-- With as many steps as there are tokens ahead, a loop ends where its condition does. -/
theorem run_manyUpTo (continues : Option Token → Bool) (item : Parser α)
    (hnone : continues none = false) {steps : Nat} (hsteps : c.ahead.length ≤ steps) :
    (continues c.current = false ∧ (manyUpTo continues item steps).run c = .ok ([], c)) ∨
      ∃ n, continues c.current = true ∧ c.ahead.length ≤ n + 1 ∧
        (manyUpTo continues item steps).run c =
        (item >>= fun first => manyUpTo continues item n >>= fun rest => pure (first :: rest)).run
          c := by
  cases hgo : continues c.current with
  | false => exact .inl ⟨rfl, run_manyUpTo_stop hgo steps⟩
  | true =>
    obtain ⟨t, ht⟩ : ∃ t, c.current = some t := by
      rw [← Option.ne_none_iff_exists']
      intro hend
      rw [hend, hnone] at hgo
      cases hgo
    have hpos := Cursor.length_pos_of_current ht
    obtain ⟨n, rfl⟩ : ∃ n, steps = n + 1 := ⟨steps - 1, by omega⟩
    exact .inr ⟨n, rfl, hsteps, run_manyUpTo_step hgo n⟩

end Parser

namespace Growing

section Rules

variable {α β γ δ : Type} {limit spare least b : Nat} {c : Cursor} {f : Forest}
  {post : α → Cursor → β → Forest → Prop} {post' : γ → Cursor → δ → Forest → Prop}

theorem Settles.of_succ {run : Nat → Option α} {a : α} (h : Settles (fun n => run (n + 1)) a) :
    Settles run a := by
  obtain ⟨depth, h⟩ := h
  refine ⟨depth + 1, fun n hn => ?_⟩
  obtain ⟨m, rfl⟩ : ∃ m, n = m + 1 := ⟨n - 1, by omega⟩
  exact h m (Nat.le_of_succ_le_succ hn)

theorem settles_const (a : α) : Settles (fun _ => some a) a :=
  ⟨0, fun _ _ => rfl⟩

theorem Settles.map {run : Nat → Option α} {a : α} (h : Settles run a) (g : α → β) :
    Settles (fun n => (run n).map g) (g a) := by
  obtain ⟨depth, h⟩ := h
  exact ⟨depth, fun n hn => congrArg (Option.map g) (h n hn)⟩

theorem bind_apply (q : Growing β) (r : β → Growing δ) (c : Cursor) (f : Forest) :
    (q >>= r) c f = match q c f with
      | some (.ok (a, c'), f') => r a c' f'
      | some (.error e, f') => some (.error e, f')
      | none => none := by
  simp only [bind, StateT.bind, ExceptT.bind, ExceptT.mk]
  rcases q c f with _ | ⟨_ | ⟨a, c'⟩, f'⟩ <;> rfl

/-- What becomes of reading something and of growing it: both end at the same place, or both fail in
the same way and the forest has no more than `limit` nodes by then. -/
inductive Follows (limit : Nat) (post : α → Cursor → β → Forest → Prop) :
    Except ParseError (α × Cursor) → Except ParseError (β × Cursor) × Forest → Prop
  | ok {a : α} {c : Cursor} {id : β} {f : Forest} : post a c id f →
      Follows limit post (.ok (a, c)) (.ok (id, c), f)
  | error {e : ParseError} {f : Forest} : f.size ≤ limit →
      Follows limit post (.error e) (.error e, f)

/-- Growing ends if its calls may nest deep enough, and follows reading. -/
def Grows (limit : Nat) (c : Cursor) (f : Forest) (p : Parser α) (q : Nat → Growing β)
    (post : α → Cursor → β → Forest → Prop) : Prop :=
  ∃ r, Settles (fun depth => q depth c f) r ∧ Follows limit post (p.run c) r

theorem Grows.deeper {p : Parser α} {q : Nat → Growing β}
    (h : Grows limit c f p (fun depth => q (depth + 1)) post) :
    Grows limit c f p q post := by
  obtain ⟨r, hr, hfollows⟩ := h
  exact ⟨r, hr.of_succ, hfollows⟩

theorem grows_congr {p p' : Parser α} {q q' : Nat → Growing β} (hp : p.run c = p'.run c)
    (hq : ∀ depth, q depth c f = q' depth c f) (h : Grows limit c f p' q' post) :
    Grows limit c f p q post := by
  unfold Grows at h ⊢
  simpa only [hp, hq] using h

theorem grows_bind {p : Parser α} {q : Nat → Growing β} {p' : α → Parser γ}
    {q' : β → Nat → Growing δ} (h : Grows limit c f p q post)
    (hnext : ∀ a d id g, post a d id g → Grows limit d g (p' a) (q' id) post') :
    Grows limit c f (p >>= p') (fun depth => q depth >>= fun id => q' id depth) post' := by
  obtain ⟨r, ⟨m, hm⟩, hfollows⟩ := h
  unfold Grows
  rw [Parser.run_bind]
  generalize p.run c = s at hfollows ⊢
  cases hfollows with
  | error he =>
    refine ⟨_, ⟨m, fun n hn => ?_⟩, .error he⟩
    simp only [bind_apply, hm n hn]
  | ok ha =>
    obtain ⟨r', ⟨m', hm'⟩, hfollows'⟩ := hnext _ _ _ _ ha
    refine ⟨r', ⟨max m m', fun n hn => ?_⟩, hfollows'⟩
    simp only [bind_apply, hm n (by omega)]
    exact hm' n (by omega)

theorem Grows.mono {p : Parser α} {q : Nat → Growing β} {post' : α → Cursor → β → Forest → Prop}
    (h : Grows limit c f p q post) (hpost : ∀ a d id g, post a d id g → post' a d id g) :
    Grows limit c f p q post' := by
  obtain ⟨r, hr, hfollows⟩ := h
  refine ⟨r, hr, ?_⟩
  generalize p.run c = s at hfollows ⊢
  cases hfollows with
  | ok ha => exact .ok (hpost _ _ _ _ ha)
  | error he => exact .error he

theorem grows_pure {a : α} {id : β} (h : post a c id f) :
    Grows limit c f (pure a) (fun _ => pure id) post :=
  ⟨_, settles_const _, .ok h⟩

/-- What only the second one looks at. -/
theorem grows_peek {σ : Type} {look : Parser σ} {s : σ} (hlook : look.run c = .ok (s, c))
    {p : Parser α} {q : σ → Nat → Growing β} (h : Grows limit c f p (q s) post) :
    Grows limit c f p (fun depth => reading look >>= fun s => q s depth) post := by
  refine grows_congr rfl (fun depth => ?_) h
  rw [bind_apply, reading, hlook]

/-- What is found out without taking a token. -/
theorem grows_look {σ : Type} {look : Parser σ} {s : σ} (hlook : look.run c = .ok (s, c))
    {p : σ → Parser α} {q : σ → Nat → Growing β} (h : Grows limit c f (p s) (q s) post) :
    Grows limit c f (look >>= p) (fun depth => reading look >>= fun s => q s depth) post := by
  refine grows_congr ?_ (fun _ => rfl) (grows_peek hlook h)
  rw [Parser.run_bind, hlook]

theorem grows_spanOf {id : NodeId} {span : Span} (hspan : (f.node? id).map Node.span = some span)
    {p : Parser α} {q : Span → Nat → Growing β} (h : Grows limit c f p (q span) post) :
    Grows limit c f p (fun depth => spanOf id >>= fun span => q span depth) post := by
  obtain ⟨n, hn, rfl⟩ := Option.map_eq_some_iff.mp hspan
  refine grows_congr rfl (fun depth => ?_) h
  rw [bind_apply, spanOf, hn]
  rfl

/-- The cursor is at a token or at the end of the text, fewer than `b` tokens are ahead, and if each
of them gets a node there is still room for `spare` more. A node is paid for with a token that has
been taken before. -/
structure Ready (limit b spare : Nat) (c : Cursor) (f : Forest) : Prop where
  reaches : c.Reaches 0
  bounded : c.ahead.length < b
  room : f.size + c.ahead.length + spare ≤ limit

theorem Ready.size_le (h : Ready limit b spare c f) : f.size ≤ limit := by
  have := h.room
  omega

/-- Tokens that have been taken pay for nodes to come. -/
theorem Ready.leads (h : Ready limit b spare c f) {d : Cursor} {n : Nat} (hd : c.Leads n d) :
    Ready limit b (spare + n) d f := by
  have hlength := hd.length_le
  have hbounded := h.bounded
  have hroom := h.room
  exact ⟨hd.reaches, by omega, by omega⟩

theorem Ready.past (h : Ready limit (b + 1) spare c f) {d : Cursor} (hd : c.Leads 1 d) :
    Ready limit b (spare + 1) d f := by
  have hlength := hd.length_le
  have hbounded := h.bounded
  exact ⟨hd.reaches, by omega, (h.leads hd).room⟩

theorem Ready.wider (h : Ready limit b spare c f) : Ready limit (b + 1) spare c f :=
  ⟨h.reaches, Nat.lt_succ_of_lt h.bounded, h.room⟩

theorem Ready.less (h : Ready limit b spare c f) {n : Nat} (hn : n ≤ spare) :
    Ready limit b n c f := by
  have hroom := h.room
  exact ⟨h.reaches, h.bounded, by omega⟩

theorem Ready.added (h : Ready limit b (spare + 1) c f) (kind : Kind) (span : Span) :
    Ready limit b spare c (f.add kind span).1 := by
  have hroom := h.room
  have hsize : (f.add kind span).1.size = f.size + 1 := Array.size_push _
  exact ⟨h.reaches, h.bounded, by omega⟩

/-- A parser that adds no nodes. -/
theorem Ready.readAt (h : Ready limit b spare c f) {A : Cursor → Prop} {p : Parser α}
    (hp : Parser.Local A least b b p p) (hA : A c) {p' : α → Parser γ} {q' : α → Nat → Growing δ}
    (hnext : ∀ a d, c.Leads least d → Ready limit b (spare + least) d f →
      Grows limit d f (p' a) (q' a) post') :
    Grows limit c f (p >>= p') (fun depth => reading p >>= fun a => q' a depth) post' := by
  have hread : Grows limit c f p (fun _ => reading p) fun a d id g => id = a ∧ g = f ∧
      c.Leads least d := by
    refine ⟨_, settles_const _, ?_⟩
    cases hrun : p.run c with
    | error e => exact .error h.size_le
    | ok r => exact .ok ⟨rfl, rfl, hp.leads hA h.reaches h.bounded hrun⟩
  apply grows_bind hread
  rintro a d _ _ ⟨rfl, rfl, hlead⟩
  exact hnext _ d hlead (h.leads hlead)

theorem Ready.read (h : Ready limit b spare c f) {p : Parser α}
    (hp : Parser.Local Parser.Anywhere least b b p p) {p' : α → Parser γ} {q' : α → Nat → Growing δ}
    (hnext : ∀ a d, c.Leads least d → Ready limit b (spare + least) d f →
      Grows limit d f (p' a) (q' a) post') :
    Grows limit c f (p >>= p') (fun depth => reading p >>= fun a => q' a depth) post' :=
  h.readAt hp trivial hnext

theorem Ready.skip (h : Ready limit b spare c f) {t : Token} (ht : c.current = some t)
    {p' : Unit → Parser γ} {q' : Unit → Nat → Growing δ}
    (hnext : ∀ d, c.Leads 1 d → Ready limit b (spare + 1) d f → Grows limit d f (p' ())
      (q' ()) post') :
    Grows limit c f (Parser.skip >>= p')
      (fun depth => reading .skip >>= fun u => q' u depth) post' :=
  h.readAt Parser.local_skip ht fun _ => hnext

theorem Ready.fail (h : Ready limit b spare c f) {fault : GrammarFault} :
    Grows limit c f (Parser.fail fault) (fun _ => reading (.fail fault)) post :=
  ⟨_, settles_const _, .error h.size_le⟩

theorem Ready.fail_bind (h : Ready limit b spare c f) {p : Parser α} {e : ParseError}
    (hp : p.run c = .error e) {p' : α → Parser γ} {q' : α → Nat → Growing δ} :
    Grows limit c f (p >>= p') (fun depth => reading p >>= fun a => q' a depth) post' := by
  have hread : Grows limit c f p (fun _ => reading p) fun _ _ _ _ => False := by
    refine ⟨_, settles_const _, ?_⟩
    rw [hp]
    exact .error h.size_le
  exact grows_bind hread fun _ _ _ _ hfalse => hfalse.elim

variable {number : Numbering} (hnumber : ∀ n < limit, number n = some n)

include hnumber

theorem Ready.add_apply (h : Ready limit b (spare + 1) c f) (kind : Kind) (span : Span) :
    add number kind span c f = some (.ok (f.size, c), (f.add kind span).1) := by
  have hroom := h.room
  rw [Growing.add, hnumber f.size (by omega)]
  rfl

theorem Ready.grow (h : Ready limit b (spare + 1) c f) {kind : Kind} {span : Span} {p : Parser α}
    {q : NodeId → Nat → Growing β}
    (hnext : Ready limit b spare c (f.add kind span).1 →
      Grows limit c (f.add kind span).1 p (q f.size) post) :
    Grows limit c f p (fun depth => add number kind span >>= fun id => q id depth) post := by
  obtain ⟨r, hr, hfollows⟩ := hnext (h.added kind span)
  refine ⟨r, ?_, hfollows⟩
  simpa only [bind_apply, h.add_apply hnumber] using hr

theorem Ready.finish (h : Ready limit b (spare + 1) c f) {kind : Kind} {span : Span} {a : α}
    {post : α → Cursor → NodeId → Forest → Prop}
    (hpost : Ready limit b spare c (f.add kind span).1 → post a c f.size (f.add kind span).1) :
    Grows limit c f (pure a) (fun _ => add number kind span) post := by
  refine ⟨_, ?_, .ok (hpost (h.added kind span))⟩
  simpa only [h.add_apply hnumber] using settles_const _

end Rules

section Loops

variable {α β γ δ : Type} {limit spare least b : Nat} {A : Cursor → Prop} {c : Cursor} {f : Forest}
  {post : γ → Cursor → δ → Forest → Prop}

/-- What has been read from `c` on is what has been planted, and there is as much room as before. -/
structure Planted (limit least b spare : Nat) (plant : Forest → α → Forest × β) (c : Cursor)
    (f : Forest) (a : α) (d : Cursor) (id : β) (g : Forest) : Prop where
  planted : plant f a = (g, id)
  leads : c.Leads least d
  ready : Ready limit b spare d g

/-- Where the condition holds, growing comes to the same as reading and planting. -/
structure Raises (limit : Nat) (A : Cursor → Prop) (least b : Nat) (p : Parser α)
    (plant : Forest → α → Forest × β) (q : Nat → Growing β) : Prop where
  grows : ∀ {spare : Nat} {c : Cursor} {f : Forest}, A c → Ready limit b spare c f →
    Grows limit c f p q (Planted limit least b spare plant c f)

section Raises

variable {p : Parser α} {plant : Forest → α → Forest × β} {q : Nat → Growing β}

theorem Raises.anywhere (hp : Raises limit Parser.Anywhere least b p plant q) :
    Raises limit A least b p plant q :=
  ⟨fun _ => hp.grows trivial⟩

theorem Raises.deeper (hp : Raises limit A least b p plant fun depth => q (depth + 1)) :
    Raises limit A least b p plant q :=
  ⟨fun hA h => (hp.grows hA h).deeper⟩

theorem Raises.next (hp : Raises limit A least b p plant q) (hA : A c) (h : Ready limit b spare c f)
    {p' : α → Parser γ} {q' : β → Nat → Growing δ}
    (hnext : ∀ a d id g, plant f a = (g, id) → c.Leads least d → Ready limit b spare d g →
      Grows limit d g (p' a) (q' id) post) :
    Grows limit c f (p >>= p') (fun depth => q depth >>= fun id => q' id depth) post :=
  grows_bind (hp.grows hA h) fun a d id g ha => hnext a d id g ha.planted ha.leads ha.ready

theorem raises_reading (hp : Parser.Local Parser.Anywhere least b b p p) :
    Raises limit Parser.Anywhere least b p Prod.mk fun _ => reading p := by
  constructor
  intro spare c f _ h
  refine ⟨_, settles_const _, ?_⟩
  cases hrun : p.run c with
  | error e => exact .error h.size_le
  | ok r =>
    have hlead := hp.leads trivial h.reaches h.bounded hrun
    exact .ok ⟨rfl, hlead, (h.leads hlead).less (Nat.le_add_right _ _)⟩

/-- The same at the end of a production that began at `c`. -/
theorem Raises.last (hp : Raises limit A least b p plant q) {d : Cursor} (hA : A d) {m n : Nat}
    (hd : c.Leads m d) (h : Ready limit b (spare + m) d f) (hn : n ≤ m + least) :
    Grows limit d f p q (Planted limit n b spare plant c f) :=
  (hp.grows hA h).mono fun _ _ _ _ ha => ⟨ha.planted, (hd.trans ha.leads).weaken hn,
    ha.ready.less (by omega)⟩

/-- The tokens ahead bound how deep a production nests. -/
theorem raises_of_depth {p : Nat → Parser α}
    (hp : ∀ depth, Raises limit Parser.Anywhere least depth (p depth) plant q) {whole : Parser α}
    (hwhole : ∀ c, whole.run c = (p (c.ahead.length + 1)).run c) :
    Raises limit Parser.Anywhere least b whole plant q := by
  constructor
  intro spare c f _ h
  apply grows_congr (hwhole c) fun _ => rfl
  refine ((hp _).grows trivial ⟨h.reaches, Nat.lt_succ_self _, h.room⟩).mono fun a d id g ha => ?_
  have hbounded := h.bounded
  have hless := ha.leads.length_le
  exact ⟨ha.planted, ha.leads, ha.ready.reaches, by omega, ha.ready.room⟩

end Raises

variable {continues : Option Token → Bool} {item : Parser α} {plant : Forest → α → Forest × β}
  {q : Nat → Growing β} {loop : Nat → Growing (List β)}

/-- A loop that goes on as long as the condition holds of the current token. -/
def Repeats (continues : Option Token → Bool) (q : Nat → Growing β)
    (loop : Nat → Growing (List β)) : Prop :=
  ∀ depth, loop (depth + 1) = do
    if continues (← reading .current) then
      let first ← q depth
      let rest ← loop depth
      return first :: rest
    else
      return []

theorem grows_manyUpTo (hnone : continues none = false)
    (hitem : Raises limit (fun c => continues c.current = true) 1 b item plant q)
    (hloop : Repeats continues q loop) {steps : Nat} (h : Ready limit b spare c f)
    (hsteps : c.ahead.length ≤ steps) :
    Grows limit c f (Parser.manyUpTo continues item steps) loop
      (Planted limit 0 b spare (Forest.plantRow plant) c f) := by
  induction hlength : c.ahead.length using Nat.strong_induction_on generalizing steps spare c f with
  | _ length ih =>
    apply Grows.deeper
    simp only [hloop _]
    apply grows_peek rfl
    rcases Parser.run_manyUpTo continues item hnone hsteps with ⟨hstop, hrun⟩ | ⟨n, hgo, hn, hrun⟩
    · simp only [hstop, Bool.false_eq_true, if_false]
      refine ⟨_, settles_const _, ?_⟩
      rw [hrun]
      exact .ok ⟨rfl, Cursor.leads_refl h.reaches, h⟩
    · simp only [hgo, if_true]
      apply grows_congr hrun fun _ => rfl
      apply hitem.next hgo h
      intro a d id g ha hd hg
      have hless := hd.length_le
      apply grows_bind (ih d.ahead.length (by omega) hg (by omega) rfl)
      intro as e ids g' has
      refine grows_pure ⟨?_, (hd.trans has.leads).weaken (Nat.zero_le _), has.ready⟩
      rw [Forest.plantRow, ha]
      dsimp only
      rw [has.planted]

/-- The number of steps that a reader is given is always enough. -/
theorem raises_many (hnone : continues none = false)
    (hitem : Raises limit (fun c => continues c.current = true) 1 b item plant q)
    (hloop : Repeats continues q loop) :
    Raises limit Parser.Anywhere 0 b (Parser.many continues item) (Forest.plantRow plant) loop := by
  constructor
  intro spare c f _ h
  refine grows_congr ?_ (fun _ => rfl) (grows_manyUpTo hnone hitem hloop h (Nat.le_refl _))
  rw [Parser.many, Parser.run_bind, Parser.run_remaining]

/-- A list in parentheses. -/
def Encloses (q : Nat → Growing β) (more list : Nat → Growing (List β)) : Prop :=
  ∀ depth, list depth = do
    reading (.expect .leftParen)
    if ← reading (.sees .rightParen) then
      reading (.expect .rightParen)
      return []
    else
      let first ← q depth
      let rest ← more depth
      reading (.expect .rightParen)
      return first :: rest

theorem raises_skip {t : Token} (hitem : Raises limit Parser.Anywhere 1 b item plant q) :
    Raises limit (fun c => (c.current == some t) = true) 1 b (Parser.skip >>= fun _ => item) plant
      fun depth => reading .skip >>= fun _ => q depth := by
  constructor
  intro spare c f hA h
  apply h.skip (beq_iff_eq.mp hA)
  intro d hd h'
  exact hitem.last trivial hd h' (by omega)

theorem raises_parenthesized {more list : Nat → Growing (List β)}
    (hitem : Raises limit Parser.Anywhere 1 b item plant q)
    (hmore : Repeats (· == some (.mark .comma))
      (fun depth => reading .skip >>= fun _ => q depth) more)
    (hlist : Encloses q more list) :
    Raises limit Parser.Anywhere 1 b (Parser.parenthesized item) (Forest.plantRow plant) list := by
  constructor
  intro spare c f _ h
  rw [funext hlist, Parser.parenthesized]
  apply h.read Parser.local_expect
  intro _ d hd h₁
  apply grows_look rfl
  have hclose {as : List α} {e : Cursor} {ids : List β} {g : Forest}
      (has : Forest.plantRow plant f as = (g, ids))
      (he : d.Leads 0 e) (h₂ : Ready limit b (spare + 1) e g) :
      Grows limit e g (Parser.expect .rightParen >>= fun _ => pure as)
        (fun _ => reading (.expect .rightParen) >>= fun _ => pure ids)
        (Planted limit 1 b spare (Forest.plantRow plant) c f) := by
    apply h₂.read Parser.local_expect
    intro _ d' hd' h₃
    exact grows_pure ⟨has, ((hd.trans he).trans hd').weaken (by omega), h₃.less (by omega)⟩
  cases (d.current == some (.mark .rightParen)) with
  | true =>
    simp only [if_true, pure_bind]
    exact hclose rfl (Cursor.leads_refl h₁.reaches) h₁
  | false =>
    simp only [Bool.false_eq_true, if_false, Parser.separated, bind_assoc, pure_bind]
    apply hitem.next trivial h₁
    intro a e id g ha he h₂
    apply (raises_many rfl (raises_skip hitem) hmore).next trivial h₂
    intro as e' ids g' has he' h₃
    apply hclose _ ((he.trans he').weaken (Nat.zero_le _)) h₃
    rw [Forest.plantRow, ha]
    dsimp only
    rw [has]

end Loops

end Growing

end DecafCheck
