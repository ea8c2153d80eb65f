/-
  A stream treats the members of its collection alike.

  * `InTurn` compares how often the elements of a cycle had their turn with how often one
    of them had: those before it no more often, those behind it at most once more;
    `InTurn.step` is one more turn;
  * `stream_pushable`: an edge that takes a unit behind a stream took one before it;
  * `Collection.passages` counts the steps that push a unit through a node; `Turned.fair`
    carries the comparison along a stream;
  * `stream_restart`: wherever its cursor is, a stream begins with a member;
  * `run_stream_fair` says so of every network that can be reached.
-/
import Matchbook.Proofs.Flow.Account
import Matchbook.Proofs.Flow.Charge

namespace Matchbook.Flow

variable {α β : Type}

/-! ## Turns -/

/-- The elements of the cycle before `m` had no more turns than `m`, and those behind it at
    most one more. -/
def InTurn (turns : NodeKey → Nat) (m : NodeKey) (cycle : List NodeKey) : Prop :=
  ∃ xs ys, cycle = xs ++ m :: ys ∧ (∀ a ∈ xs, turns a ≤ turns m) ∧ ∀ a ∈ ys, turns a ≤ turns m + 1

namespace InTurn

variable {turns turns' : NodeKey → Nat} {m a : NodeKey} {cycle xs ys : List NodeKey}

/-- Nobody had a turn. -/
theorem zero (hm : m ∈ cycle) : InTurn (fun _ => 0) m cycle := by
  obtain ⟨xs, ys, rfl⟩ := List.append_of_mem hm
  exact ⟨xs, ys, rfl, by simp, by simp⟩

theorem le (h : InTurn turns m cycle) (ha : a ∈ cycle) : turns a ≤ turns m + 1 := by
  obtain ⟨xs, ys, rfl, hbefore, hbehind⟩ := h
  rcases List.mem_append.1 ha with ha | ha
  · exact (hbefore a ha).trans (Nat.le_succ _)
  · rcases List.mem_cons.1 ha with rfl | ha
    · exact Nat.le_succ _
    · exact hbehind a ha

/-- The element `a` has a turn, which `m` does not miss, and goes to the end of the cycle. -/
theorem step (h : InTurn turns m (xs ++ a :: ys)) (hnodup : (xs ++ a :: ys).Nodup) (hm : m ∉ xs)
    (hturns : ∀ x ∈ xs ++ a :: ys, turns' x = turns x + if x = a then 1 else 0) :
    InTurn turns' m (ys ++ (xs ++ [a])) := by
  obtain ⟨hna, -⟩ := List.nodup_cons.1 (List.nodup_middle.1 hnodup)
  have hself : turns' a = turns a + 1 := by rw [hturns a (by simp), if_pos rfl]
  have hother : ∀ x ∈ xs ++ ys, turns' x = turns x := by
    intro x hx
    have hxa : x ≠ a := fun hxa => hna (hxa ▸ hx)
    have hmem : x ∈ xs ++ a :: ys := by
      rw [List.mem_append, List.mem_cons]
      exact (List.mem_append.1 hx).imp id Or.inr
    rw [hturns x hmem, if_neg hxa, Nat.add_zero]
  obtain ⟨as, bs, hsplit, hbefore, hbehind⟩ := h
  rcases Collection.append_eq_split hsplit with ⟨cs, rfl, hcs⟩ | ⟨cs, rfl, -⟩
  · cases cs with
    | nil =>
      -- it is the turn of `m`: all others catch up by one
      obtain ⟨rfl, rfl⟩ := List.cons.inj hcs
      rw [List.append_nil] at hbefore
      refine ⟨ys ++ xs, [], by simp, fun x hx => ?_, nofun⟩
      rw [hself, hother x (List.mem_append.2 (List.mem_append.1 hx).symm)]
      rcases List.mem_append.1 hx with hx | hx
      · exact hbehind x hx
      · exact (hbefore x hx).trans (Nat.le_succ _)
    | cons c cs =>
      -- it is the turn of one before `m`, which goes behind it
      obtain ⟨rfl, rfl⟩ : a = c ∧ ys = cs ++ m :: bs := List.cons.inj hcs
      have hm' : turns' m = turns m := hother m (by simp)
      refine ⟨cs, bs ++ (xs ++ [a]), by simp, fun x hx => ?_, fun x hx => ?_⟩
      · rw [hm', hother x (by simp [hx])]
        exact hbefore x (by simp [hx])
      · rw [hm']
        rcases List.mem_append.1 hx with hx | hx
        · rw [hother x (by simp [hx])]
          exact hbehind x hx
        · rcases List.mem_append.1 hx with hx | hx
          · rw [hother x (by simp [hx])]
            exact (hbefore x (by simp [hx])).trans (Nat.le_succ _)
          · rw [List.mem_singleton.1 hx, hself]
            exact Nat.succ_le_succ (hbefore a (by simp))
  · exact absurd (by simp) hm

end InTurn

/-! ## Edges that still take a unit -/

namespace Graph

/-- An edge that takes a unit behind another unit took one before it. -/
theorem Sound.canPush_of_unitAlong {g : Graph α} (h : g.Sound) {k j : EdgeKey} {e : Edge}
    (he : g.edge? k = some e) (hj : (g.unitAlong k e).canPush j = true) : g.canPush j = true := by
  obtain ⟨d', hd', hfree, hsource, hsink⟩ := canPush_iff.1 hj
  obtain ⟨d, hd, hs, ht, hflow⟩ := edge?_unitAlong_cases hd'
  have hroom : ∀ {a : NodeKey}, (∃ n, (g.unitAlong k e).node? a = some n ∧ n.flow < n.capacity) →
      ∃ n, g.node? a = some n ∧ n.flow < n.capacity := by
    rintro a ⟨n, hn, hlt⟩
    obtain ⟨m, hm, ⟨-, rfl⟩ | ⟨-, rfl⟩⟩ := exists_node_onEnds (h.source_ne_sink he) hn
    · exact ⟨m, hm, Nat.lt_of_succ_lt hlt⟩
    · exact ⟨n, hm, hlt⟩
  exact canPush_iff.2 ⟨d, hd, by omega, hs ▸ hroom hsource, ht ▸ hroom hsink⟩

/-- A node with an edge that takes a unit behind another unit had one before it. -/
theorem Sound.pushable_of_unitAlong {g : Graph α} (h : g.Sound) {k : EdgeKey} {e : Edge}
    (he : g.edge? k = some e) (hpush : g.canPush k = true) {m : NodeKey}
    (hm : Collection.pushableEdge (g.unitAlong k e) m ≠ none) :
    Collection.pushableEdge g m ≠ none := by
  obtain ⟨j, hj⟩ := Option.ne_none_iff_exists'.1 hm
  have hend := (h.unitAlong he hpush).mem_edgesOf.1 (List.mem_of_find?_eq_some hj)
  have hmem : j ∈ g.edgesOf m :=
    h.mem_edgesOf.2 ((endsAt_iff (.unitAlong g k e) (.unitAlong g k e) j m).1 hend)
  exact fun hnone =>
    List.find?_eq_none.1 hnone j hmem (h.canPush_of_unitAlong he (List.find?_some hj))

end Graph

namespace Collection

variable {c c' : Collection β} {g g' : Graph α} {l cycle : List NodeKey} {steps : List FlowStep}

/-- A node with an edge that takes a unit behind a stream had one before it. -/
theorem stream_pushable (hs : g.Sound) {n : Nat} (h : stream n c g = (steps, c', g')) {m : NodeKey}
    (hm : pushableEdge g' m ≠ none) : pushableEdge g m ≠ none := by
  have hstep : ∀ (d : Collection β) (f : Graph α),
      f.Sound ∧ (pushableEdge f m ≠ none → pushableEdge g m ≠ none) →
        (d.next f).2.2.Sound ∧
          (pushableEdge (d.next f).2.2 m ≠ none → pushableEdge g m ≠ none) := by
    rintro d f ⟨hf, hback⟩
    refine ⟨hf.next d, fun hm => hback ?_⟩
    rcases d.next_cases f with hn | ⟨_, edge, _, e, -, -, -, he, hpush, hn⟩ <;> rw [hn] at hm
    · exact hm
    · exact hf.pushable_of_unitAlong he hpush hm
  have hkept := stream_induction hstep n (c := c) ⟨hs, fun hm => hm⟩
  rw [h] at hkept
  exact hkept.2 hm

/-! ## Passages -/

/-- How many of the steps push a unit through the node. -/
def passages (g : Graph α) (steps : List FlowStep) (a : NodeKey) : Nat :=
  steps.countP fun s => g.EndsAt s.edge a

theorem passages_cons (g : Graph α) (s : FlowStep) (steps : List FlowStep) (a : NodeKey) :
    passages g (s :: steps) a = passages g steps a + if g.EndsAt s.edge a then 1 else 0 := by
  simp only [passages, List.countP_cons, decide_eq_true_eq]

theorem passages_unitAlong (g : Graph α) (k : EdgeKey) (e : Edge) (steps : List FlowStep)
    (a : NodeKey) : passages (g.unitAlong k e) steps a = passages g steps a := by
  refine List.countP_congr fun s _ => ?_
  rw [decide_eq_true_iff, decide_eq_true_iff]
  exact Graph.endsAt_iff (.unitAlong g k e) (.unitAlong g k e) s.edge a

/-- Of nodes of one role, an edge ends at one alone. -/
theorem endsAt_iff_eq (hs : g.Sound) {isSink : Bool} (hl : g.AllOn isSink l) {k : EdgeKey}
    {a b : NodeKey} (ha : a ∈ l) (hk : g.EndsAt k a) (hb : b ∈ l) : g.EndsAt k b ↔ b = a := by
  refine ⟨?_, fun hab => hab ▸ hk⟩
  rintro ⟨e, he, htb⟩
  obtain ⟨e', he', hta⟩ := hk
  obtain rfl := Option.some.inj (he.symm.trans he')
  obtain ⟨n, hn, hrole⟩ := hl.exists_node ha
  obtain ⟨p, hp, hrole'⟩ := hl.exists_node hb
  rw [← (hs.touches_iff he hn).1 hta, ← (hs.touches_iff he hp).1 htb, hrole, hrole']

/-- **A step** is the turn of one member, and no member with an edge that takes a unit is
    passed over. -/
theorem Turned.next_inTurn {isSink : Bool} {m : NodeKey} {turns : NodeKey → Nat}
    (h : c.Turned g l cycle) (hs : g.Sound) (hl : g.AllOn isSink l) (hm : pushableEdge g m ≠ none)
    (hturns : InTurn turns m cycle) :
    c.next g = (none, c, g) ∨ ∃ s e c' cycle', g.edge? s.edge = some e ∧
      g.canPush s.edge = true ∧ c.next g = (some s, c', g.unitAlong s.edge e) ∧
        c'.Turned (g.unitAlong s.edge e) l cycle' ∧
          InTurn (fun x => turns x + if g.EndsAt s.edge x then 1 else 0) m cycle' := by
  by_cases hcap : c.maxFlow ≤ g.load l
  · exact Or.inl (h.next_eq_none (Or.inl hcap))
  cases hround : goRound (openEdge g) [] cycle with
  | none => exact Or.inl (h.next_eq_none (Or.inr hround))
  | some found =>
    obtain ⟨k, cycle'⟩ := found
    obtain ⟨e, c', he, hpush, hnext, -, hturned⟩ :=
      h.next_eq_some (Nat.lt_of_not_le hcap) hround
    refine Or.inr ⟨⟨k, 1, _⟩, e, c', cycle', he, hpush, hnext, hturned, ?_⟩
    obtain ⟨xs, a, ys, rfl, hclosed, hopen, rfl⟩ := goRound_split hround
    have hmem : ∀ {x}, x ∈ xs ++ a :: ys → x ∈ l := fun hx => h.rotated.mem_iff.2 hx
    have hend : g.EndsAt k a := ⟨e, he, hs.touches_of_openEdge hopen he⟩
    refine hturns.step (h.rotated.nodup_iff.1 h.holds.nodup) (fun hmx => hm ?_) fun x hx => ?_
    · exact (hs.closed (hclosed m hmx)).1
    · simp only [endsAt_iff_eq hs hl (hmem (by simp)) hend (hmem hx)]

/-- **Round robin**: behind any number of steps, no member had more than one turn more than
    one that still has an edge which takes a unit, if this was so with the turns before. -/
theorem Turned.fair {isSink : Bool} {m : NodeKey} : ∀ (n : Nat) {c c' : Collection β}
    {g g' : Graph α} {l cycle : List NodeKey} {steps : List FlowStep} {turns : NodeKey → Nat},
    c.Turned g l cycle → g.Sound → g.AllOn isSink l → stream n c g = (steps, c', g') →
      pushableEdge g' m ≠ none → InTurn turns m cycle → ∀ a ∈ l,
        turns a + passages g steps a ≤ turns m + passages g steps m + 1
  | 0, c, c', g, g', l, cycle, steps, turns, h, _, _, hstream, _, hturns, a, ha => by
    cases hstream
    exact hturns.le (h.rotated.mem_iff.1 ha)
  | n + 1, c, c', g, g', l, cycle, steps, turns, h, hs, hl, hstream, hm, hturns, a, ha => by
    rcases h.next_inTurn hs hl (stream_pushable hs hstream hm) hturns with
      hn | ⟨s, e, c₁, cycle₁, he, hpush, hn, hturned, hturns'⟩
    · simp only [stream, hn] at hstream
      cases hstream
      exact hturns.le (h.rotated.mem_iff.1 ha)
    · rcases hrest : stream n c₁ (g.unitAlong s.edge e) with ⟨steps', c₂, g₂⟩
      simp only [stream, hn, hrest] at hstream
      cases hstream
      have hfair := hturned.fair n (hs.unitAlong he hpush) (hl.samePlaces (.unitAlong g s.edge e))
        hrest hm hturns' a ha
      simp only [passages_unitAlong] at hfair
      rw [passages_cons, passages_cons]
      omega

/-! ## Wherever the cursor is -/

/-- Collections that differ in the cursor alone, and not in the member at which a step
    begins, take the same step. -/
theorem next_restart {c d : Collection β} {g : Graph α} {cursor : Option NodeKey}
    (hd : d = { c with cursor })
    (hstart : ∀ head, c.head = some head → d.startOf g head = c.startOf g head) :
    c.next g = (none, c, g) ∧ d.next g = (none, d, g) ∨
      ∃ s c' g', c.next g = (some s, c', g') ∧ d.next g = (some s, c', g') := by
  have hmax : d.maxFlow = c.maxFlow := by rw [hd]
  have hhead : d.head = c.head := by rw [hd]
  have hflow : d.flow g = c.flow g := by rw [hd]; rfl
  have hmoved : ∀ k, { d with cursor := some k } = { c with cursor := some k } := by rw [hd]; simp
  by_cases hcap : c.maxFlow ≤ c.flow g
  · exact Or.inl (by simp [next, hmax, hflow, hcap])
  cases hh : c.head with
  | none => exact Or.inl (by simp [next, hmax, hflow, hcap, hhead, hh])
  | some head =>
    have hbegin := hstart head hh
    cases hseek : seek g head (c.startOf g head) g.nodes.length (c.startOf g head) with
    | none => exact Or.inl (by simp [next, hmax, hflow, hcap, hhead, hh, hbegin, hseek])
    | some found =>
      obtain ⟨k, behind⟩ := found
      rcases g.pushUnit_eq k with ⟨e, -, -, hu⟩ | ⟨-, hu⟩
      · have hnext : c.next g = (some ⟨k, 1, c.flow g + 1⟩, { c with cursor := some behind },
            g.unitAlong k e) := by simp only [next, if_neg hcap, hh, hseek, hu]
        have hnext' : d.next g = (some ⟨k, 1, c.flow g + 1⟩, { d with cursor := some behind },
            g.unitAlong k e) := by
          simp only [next, hmax, hflow, if_neg hcap, hhead, hh, hbegin, hseek, hu]
        exact Or.inr ⟨_, _, _, hnext, hmoved behind ▸ hnext'⟩
      · exact Or.inl (by simp [next, hmax, hflow, hcap, hhead, hh, hbegin, hseek, hu])

/-- So they take the same steps, and leave the same graph. -/
theorem stream_restart {c d : Collection β} {g : Graph α} {cursor : Option NodeKey}
    (hd : d = { c with cursor })
    (hstart : ∀ head, c.head = some head → d.startOf g head = c.startOf g head) (n : Nat) :
    (stream n d g).1 = (stream n c g).1 ∧ (stream n d g).2.2 = (stream n c g).2.2 := by
  cases n with
  | zero => exact ⟨rfl, rfl⟩
  | succ n =>
    rcases next_restart hd hstart with ⟨hc, hd⟩ | ⟨s, c', g', hc, hd⟩ <;>
      simp only [stream, hc, hd, and_self]

/-- A collection that is not empty, with its cursor on the member at which a step begins. -/
theorem Spells.exists_turned (h : c.Spells g l) {m : NodeKey} (hm : m ∈ l) :
    ∃ (d : Collection β) (cycle : List NodeKey), d.Turned g l cycle ∧
      ∀ n, (stream n d g).1 = (stream n c g).1 ∧ (stream n d g).2.2 = (stream n c g).2.2 := by
  cases hh : c.head with
  | none =>
    rw [List.head?_eq_none_iff.1 (h.head.symm.trans hh)] at hm
    cases hm
  | some head =>
    obtain ⟨xs, ys, hl⟩ := List.append_of_mem (h.startOf_mem hh)
    have hrotated : l ~r c.startOf g head :: (ys ++ xs) := by
      rw [hl]
      exact List.isRotated_append
    have hturned := Turned.move h hrotated
    refine ⟨_, _, hturned, stream_restart rfl fun head' hh' => ?_⟩
    obtain rfl : head' = head := Option.some.inj (hh'.symm.trans hh)
    exact (Option.some.inj (hturned.start head' hh)).symm

end Collection

namespace Network

/-- **Round-robin fairness**: whatever was done to the graph and its collections, and wherever
    the cursor of a collection of sources, or of one of sinks, is, behind any number of steps of
    one stream no member has let more than one unit more through than one that still has an edge
    which takes a unit. -/
theorem run_stream_fair (actions : List (Action α β)) {i : CollectionId} {c : Collection β}
    (hc : (run actions).collections[i]? = some c) (hrole : c.OneRole (run actions).graph)
    (cursor : Option NodeKey) {n : Nat} {steps : List FlowStep} {c' : Collection β} {g' : Graph α}
    (hstream : Collection.stream n { c with cursor } (run actions).graph = (steps, c', g'))
    {m m' : NodeKey} (hm : m ∈ c.members (run actions).graph)
    (hopen : Collection.pushableEdge g' m ≠ none) (hm' : m' ∈ c.members (run actions).graph) :
    Collection.passages (run actions).graph steps m' ≤
      Collection.passages (run actions).graph steps m + 1 := by
  obtain ⟨l, h⟩ := run_spells actions hc cursor
  obtain ⟨isSink, hl⟩ := hrole
  have hmembers : c.members (run actions).graph = l := h.members_eq
  rw [hmembers] at hm hm' hl
  obtain ⟨d, cycle, hturned, hrestart⟩ := h.exists_turned hm
  obtain ⟨hsteps, hgraph⟩ := hrestart n
  rcases hd : Collection.stream n d (run actions).graph with ⟨steps', d', g''⟩
  rw [hstream, hd] at hsteps hgraph
  dsimp only at hsteps hgraph
  rw [← hsteps]
  have hfair := hturned.fair n (run_sound actions) hl hd (hgraph ▸ hopen)
    (.zero (hturned.rotated.mem_iff.1 hm)) m' hm'
  simpa using hfair

/-- Two sinks in a collection, each linked to two sources. -/
def twins : List (Action Unit Unit) :=
  [.collect () 4, .addNode () 2 true, .addNode () 2 true, .addNode () 1 false, .addNode () 1 false,
    .addNode () 1 false, .addNode () 1 false, .link 0 2, .link 0 3, .link 1 4, .link 1 5, .add 0 0,
    .add 0 1]

/-- Of three steps two are the second sink's if the cursor is there, and one is the first's. -/
theorem run_stream_fair_twins :
    ∃ c steps c' g', (run twins).collections[0]? = some c ∧ c.OneRole (run twins).graph ∧
      Collection.stream 3 { c with cursor := some 1 } (run twins).graph = (steps, c', g') ∧
        Collection.pushableEdge g' 0 = some 1 ∧
          Collection.passages (run twins).graph steps 1 = 2 ∧
            2 ≤ Collection.passages (run twins).graph steps 0 + 1 := by
  have hc : (run twins).collections[0]? = some ⟨(), 0, 4, some 0, some 1, 2, none⟩ := by decide
  have hrole : Collection.OneRole ⟨(), 0, 4, some 0, some 1, 2, none⟩ (run twins).graph :=
    ⟨true, by decide⟩
  rcases hstream : Collection.stream 3 ⟨(), 0, 4, some 0, some 1, 2, some 1⟩ (run twins).graph with
    ⟨steps, c', g'⟩
  have hopen : Collection.pushableEdge
      (Collection.stream 3 ⟨(), 0, 4, some 0, some 1, 2, some 1⟩ (run twins).graph).2.2 0 =
        some 1 := by
    decide
  have hpassages : Collection.passages (run twins).graph
      (Collection.stream 3 ⟨(), 0, 4, some 0, some 1, 2, some 1⟩ (run twins).graph).1 1 = 2 := by
    decide
  rw [hstream] at hopen hpassages
  have hfair := run_stream_fair twins hc hrole (some 1) hstream (m := 0) (by decide)
    (by rw [hopen]; exact Option.some_ne_none 1) (show 1 ∈ _ by decide)
  exact ⟨_, _, _, _, hc, hrole, hstream, hopen, hpassages, hpassages ▸ hfair⟩

end Network
end Matchbook.Flow
