/-
  Sharing units among root items so that none of them goes short.

  * `IsAssignment`: things are given to root items that they suit, to each as many as it
    asks for;
  * `Separate`: what is accepted for two root items names no token, and then they have all
    such things in common;
  * `Dealt` is what visits keep up where the units that name a token come first: a root
    item that took one that does not has left none that does (`Dealt.visit`,
    `Dealt.rounds`);
  * `Dealt.served`: where all visits are in vain, the root items hold as many units as they
    ask for, if there is an assignment.  Those that take what one of them could have had
    (`contenders`) hold all that is accepted for any of them;
  * `greedy_complete`: so greedy visits place as many units as are asked for exactly if
    there is an assignment.
-/
import Mathlib.Algebra.Order.BigOperators.Group.List
import Mathlib.Algebra.Order.Group.Nat
import Matchbook.Proofs.Order.Binding
import Matchbook.Proofs.Related
import Matchbook.Proofs.Search.Greedy

namespace Matchbook.Search

open Matchbook.Flow

variable {chain : Chain} {roots : List (Nat × OrderItem)} {units : List OrderItem} {lots : List Lot}

/-! ## Assignments -/

section Assignments

variable {β γ : Type} {suits : OrderItem → β → Prop} {suits' : OrderItem → γ → Prop}

/-- The thing is given to a root item that it suits, which is named by its place, if to
    any. -/
def GoesTo (suits : OrderItem → β → Prop) (roots : List (Nat × OrderItem)) (b : β)
    (taker : Option Nat) : Prop :=
  ∀ k, taker = some k → ∃ r ∈ roots, r.1 = k ∧ suits r.2 b

theorem goesTo_some {b : β} {k : Nat} :
    GoesTo suits roots b (some k) ↔ ∃ r ∈ roots, r.1 = k ∧ suits r.2 b := by
  simp [GoesTo]

/-- Each thing is given to a root item that it suits, if to any, and each root item is given
    as many as it asks for. -/
structure IsAssignment (suits : OrderItem → β → Prop) (roots : List (Nat × OrderItem))
    (things : List β) (takers : List (Option Nat)) : Prop where
  suited : List.Forall₂ (GoesTo suits roots) things takers
  filled : ∀ r ∈ roots, takers.count (some r.1) = r.2.quantity.toNat

/-- The things can be given to the root items. -/
def Assignable (suits : OrderItem → β → Prop) (roots : List (Nat × OrderItem)) (things : List β) :
    Prop := ∃ takers, IsAssignment suits roots things takers

/-- What is left out is given to none. -/
theorem exists_takers_of_filter {p : β → Bool} : ∀ {things : List β} {takers : List (Option Nat)},
    List.Forall₂ (GoesTo suits roots) (things.filter p) takers →
      ∃ takers', List.Forall₂ (GoesTo suits roots) things takers' ∧
        ∀ k, takers'.count (some k) = takers.count (some k)
  | [], takers, h => ⟨takers, h, fun _ => rfl⟩
  | b :: things, takers, h => by
    cases hp : p b with
    | false =>
      rw [List.filter_cons_of_neg (by simp [hp])] at h
      obtain ⟨takers', hsuited, hcount⟩ := exists_takers_of_filter h
      exact ⟨none :: takers', .cons nofun hsuited, fun k => by simp [hcount]⟩
    | true =>
      rw [List.filter_cons_of_pos hp] at h
      cases h with
      | cons hb h =>
        obtain ⟨takers', hsuited, hcount⟩ := exists_takers_of_filter h
        exact ⟨_ :: takers', .cons hb hsuited, fun k => by simp only [List.count_cons, hcount]⟩

/-- Things that suit no root item may be left out. -/
theorem exists_takers_filter {p : β → Bool} {things : List β} {takers : List (Option Nat)}
    (hp : ∀ r ∈ roots, ∀ b ∈ things, suits r.2 b → p b = true)
    (h : List.Forall₂ (GoesTo suits roots) things takers) :
    ∃ takers', List.Forall₂ (GoesTo suits roots) (things.filter p) takers' ∧
      ∀ k, takers'.count (some k) = takers.count (some k) := by
  induction h with
  | nil => exact ⟨[], .nil, fun _ => rfl⟩
  | @cons b t things takers hb _ ih =>
    obtain ⟨takers', hsuited, hcount⟩ := ih fun r hr b hb => hp r hr b (List.mem_cons_of_mem _ hb)
    cases hpb : p b with
    | true =>
      rw [List.filter_cons_of_pos hpb]
      exact ⟨t :: takers', .cons hb hsuited, fun k => by simp only [List.count_cons, hcount]⟩
    | false =>
      rw [List.filter_cons_of_neg (by simp [hpb])]
      cases t with
      | none => exact ⟨takers', hsuited, fun k => by simp [hcount]⟩
      | some k =>
        obtain ⟨r, hr, -, hsuits⟩ := hb k rfl
        rw [hp r hr b List.mem_cons_self hsuits] at hpb
        cases hpb

theorem assignable_filter_iff {p : β → Bool} {things : List β}
    (hp : ∀ r ∈ roots, ∀ b ∈ things, suits r.2 b → p b = true) :
    Assignable suits roots (things.filter p) ↔ Assignable suits roots things := by
  constructor
  · rintro ⟨takers, hsuited, hfilled⟩
    obtain ⟨takers', hsuited', hcount⟩ := exists_takers_of_filter hsuited
    exact ⟨takers', hsuited', fun r hr => (hcount r.1).trans (hfilled r hr)⟩
  · rintro ⟨takers, hsuited, hfilled⟩
    obtain ⟨takers', hsuited', hcount⟩ := exists_takers_filter hp hsuited
    exact ⟨takers', hsuited', fun r hr => (hcount r.1).trans (hfilled r hr)⟩

/-- It does not matter in which order the things come. -/
theorem assignable_perm_iff {things things' : List β} (hp : things.Perm things') :
    Assignable suits roots things ↔ Assignable suits roots things' := by
  have himp : ∀ {things things' : List β}, things.Perm things' → Assignable suits roots things →
      Assignable suits roots things' := by
    rintro things things' hp ⟨takers, hsuited, hfilled⟩
    obtain ⟨takers', hsuited', hperm⟩ := List.perm_comp_forall₂ hp.symm hsuited
    exact ⟨takers', hsuited', fun r hr => (hperm.count_eq _).trans (hfilled r hr)⟩
  exact ⟨himp hp, himp hp.symm⟩

/-- Things that suit the same root items can be given likewise. -/
theorem assignable_congr {R : β → γ → Prop} {things : List β} {others : List γ}
    (hR : ∀ r ∈ roots, ∀ {b c}, R b c → (suits r.2 b ↔ suits' r.2 c))
    (h : List.Forall₂ R things others) :
    Assignable suits roots things ↔ Assignable suits' roots others := by
  have hgoes : ∀ {b c t}, R b c → (GoesTo suits roots b t ↔ GoesTo suits' roots c t) := by
    intro b c t hbc
    refine forall_congr' fun k => imp_congr_right fun _ => exists_congr fun r => ?_
    exact and_congr_right fun hr => and_congr_right fun _ => hR r hr hbc
  constructor
  · rintro ⟨takers, hsuited, hfilled⟩
    exact ⟨takers, forall₂_comp h.flip hsuited fun hbc hb => (hgoes hbc).1 hb, hfilled⟩
  · rintro ⟨takers, hsuited, hfilled⟩
    exact ⟨takers, forall₂_comp h hsuited fun hbc hc => (hgoes hbc).2 hc, hfilled⟩

end Assignments

/-- What several root items were given is what they were given together. -/
theorem sum_count_takers (hkeys : (roots.map Prod.fst).Nodup) (takers : List (Option Nat)) :
    (roots.map fun r => takers.count (some r.1)).sum =
      takers.countP fun t => decide (∃ r ∈ roots, t = some r.1) := by
  induction roots with
  | nil => simp
  | cons r roots ih =>
    obtain ⟨hr, hkeys⟩ := List.nodup_cons.1 hkeys
    rw [List.map_cons, List.sum_cons, ih hkeys, List.countP_eq_countP_filter_add takers
      (fun t => decide (∃ k ∈ r :: roots, t = some k.1)) (· == some r.1), List.countP_filter,
      List.countP_filter]
    refine congrArg₂ _ (List.countP_congr fun t _ => ?_) (List.countP_congr fun t _ => ?_)
    · simp +contextual
    · have hother : (∃ k ∈ roots, t = some k.1) → t ≠ some r.1 := by
        rintro ⟨k, hk, rfl⟩ heq
        exact hr (Option.some.inj heq ▸ List.mem_map_of_mem hk)
      simp only [List.mem_cons, exists_eq_or_imp, Bool.and_eq_true, decide_eq_true_eq,
        Bool.not_eq_true', beq_eq_false_iff_ne]
      exact ⟨fun h => ⟨Or.inr h, hother h⟩, fun h => h.1.resolve_left h.2⟩

/-! ## Root items that share nothing but what names no token -/

/-- The root items have different places.  No item that names a token is accepted for two of
    them, and if one that names none is accepted for two, so are all others that are accepted
    for one of these. -/
structure Separate (chain : Chain) (roots : List (Nat × OrderItem)) : Prop where
  nodup : (roots.map Prod.fst).Nodup
  named : ∀ {r r' i}, r ∈ roots → r' ∈ roots → i.hasToken = true →
    chain.admits r.2 i = true → chain.admits r'.2 i = true → r = r'
  unnamed : ∀ {r r' i j}, r ∈ roots → r' ∈ roots → i.hasToken = false → j.hasToken = false →
    chain.admits r.2 i = true → chain.admits r'.2 i = true → chain.admits r.2 j = true →
      chain.admits r'.2 j = true

theorem Separate.eq_of_key (h : Separate chain roots) {r r' : Nat × OrderItem} (hr : r ∈ roots)
    (hr' : r' ∈ roots) (hkey : r.1 = r'.1) : r = r' :=
  List.inj_on_of_nodup_map h.nodup hr hr' hkey

/-- The units that name a token come first. -/
def NamedFirst (units : List OrderItem) : Prop :=
  units.Pairwise fun i j => i.hasToken = false → j.hasToken = false

/-! ## What visits keep up -/

/-- The lots are those of the units.  Each was taken by a root item for which the chain
    accepts it, none of which took more than it asks for, and one that took a unit that
    names no token has left none that does. -/
structure Dealt (chain : Chain) (roots : List (Nat × OrderItem)) (units : List OrderItem)
    (lots : List Lot) : Prop where
  items : lots.map Lot.item = units
  admitted : ∀ lot ∈ lots, GoesTo (fun r i => chain.admits r i) roots lot.item lot.taker
  held_le : ∀ r ∈ roots, held r.1 lots ≤ r.2.quantity.toNat
  spared : ∀ r ∈ roots, ∀ lot ∈ lots, lot.item.hasToken = false → lot.taker = some r.1 →
    ∀ other ∈ lots, other.item.hasToken = true → chain.admits r.2 other.item = true →
      other.taker ≠ none

/-- Taking a lot adds one to what its taker holds. -/
theorem held_take {lot : Lot} (k j : Nat) (xs : List Lot) {ys : List Lot}
    (hfree : lot.taker = none) :
    held k (xs ++ { lot with taker := some j } :: ys) =
      held k (xs ++ lot :: ys) + if j = k then 1 else 0 := by
  simp [held, List.countP_cons, hfree, Nat.add_assoc]

theorem held_eq_count (k : Nat) (lots : List Lot) :
    held k lots = (lots.map Lot.taker).count (some k) := by
  rw [held, List.count, List.countP_map]
  rfl

/-- Nothing is taken to begin with. -/
theorem Dealt.init (chain : Chain) (roots : List (Nat × OrderItem)) (units : List OrderItem) :
    Dealt chain roots units (units.map fun i => ⟨i, none⟩) where
  items := by
    rw [List.map_map]
    exact List.map_id _
  admitted := by simp [GoesTo]
  held_le r _ := by simp [held, List.countP_map, Function.comp_def]
  spared := by simp

namespace Dealt

/-- **A visit** keeps this up: as the units that name a token come first, a root item takes
    one that does not only if it is left none that does. -/
theorem visit (h : Dealt chain roots units lots) (hd : Separate chain roots) (hn : NamedFirst units)
    {r : Nat × OrderItem} (hr : r ∈ roots) {lots' : List Lot}
    (hvisit : Search.visit chain lots r = some lots') : Dealt chain roots units lots' := by
  unfold Search.visit at hvisit
  split at hvisit
  case isFalse => cases hvisit
  case isTrue hneeds =>
    obtain ⟨xs, lot, ys, rfl, rfl, hfree, haccepts, hxs⟩ := takeFirst_eq_some hvisit
    have hmem : ∀ {lot'}, lot' ∈ xs ∨ lot' ∈ ys → lot' ∈ xs ++ lot :: ys := by
      intro lot' hlot'
      rcases hlot' with hlot' | hlot' <;> simp [hlot']
    have hcases : ∀ {lot'}, lot' ∈ xs ++ { lot with taker := some r.1 } :: ys →
        lot' = { lot with taker := some r.1 } ∨ lot' ∈ xs ∨ lot' ∈ ys := by
      intro lot' hlot'
      simp only [List.mem_append, List.mem_cons] at hlot'
      tauto
    have hbehind : ∀ lot' ∈ ys, lot.item.hasToken = false → lot'.item.hasToken = false := by
      have hpairs := hn
      rw [NamedFirst, ← h.items, List.map_append, List.map_cons, List.pairwise_append,
        List.pairwise_cons] at hpairs
      exact fun lot' hlot' => hpairs.2.1.1 _ (List.mem_map_of_mem hlot')
    constructor
    case items =>
      rw [← h.items]
      simp
    case admitted =>
      intro lot' hlot' k hk
      rcases hcases hlot' with rfl | hlot'
      · exact ⟨r, hr, Option.some.inj hk, haccepts⟩
      · exact h.admitted lot' (hmem hlot') k hk
    case held_le =>
      intro r' hr'
      have hle := h.held_le r' hr'
      rw [held_take _ _ _ hfree]
      split
      · next hkey =>
        obtain rfl := hd.eq_of_key hr hr' hkey
        exact hneeds
      · exact hle
    case spared =>
      intro r' hr' lot₁ hlot₁ hopen htaker lot₂ hlot₂ hnamed hadmits hnone
      rcases hcases hlot₂ with rfl | hlot₂
      · cases hnone
      rcases hcases hlot₁ with rfl | hlot₁
      · -- the unit that was just taken names no token: the named one was not left before it
        obtain rfl := hd.eq_of_key hr hr' (Option.some.inj htaker)
        rcases hlot₂ with hlot₂ | hlot₂
        · rw [hxs lot₂ hlot₂ hnone] at hadmits
          cases hadmits
        · rw [hbehind lot₂ hlot₂ hopen] at hnamed
          cases hnamed
      · exact h.spared r' hr' lot₁ (hmem hlot₁) hopen htaker lot₂ (hmem hlot₂) hnamed hadmits hnone

/-- **A run of visits** keeps this up, and ends when all that is wanted was placed or all
    visits are in vain. -/
theorem rounds (hd : Separate chain roots) (hn : NamedFirst units) :
    ∀ (wanted : Nat) {cycle : List (Nat × OrderItem)} {lots : List Lot},
      Dealt chain roots units lots → roots ~r cycle →
        Dealt chain roots units (rounds chain wanted cycle lots) ∧
          (taken (Search.rounds chain wanted cycle lots) = taken lots + wanted ∨
            ∀ r ∈ roots, Search.visit chain (Search.rounds chain wanted cycle lots) r = none)
  | 0, _, _, h, _ => ⟨h, Or.inl rfl⟩
  | wanted + 1, cycle, lots, h, hrotated => by
    rw [Search.rounds]
    cases hround : goRound (Search.visit chain lots) [] cycle with
    | none =>
      exact ⟨h, Or.inr fun r hr => goRound_eq_none hround r (hrotated.mem_iff.1 hr)⟩
    | some found =>
      obtain ⟨lots', cycle'⟩ := found
      obtain ⟨⟨r, hr, hvisit⟩, hturned⟩ := goRound_eq_some hround
      have hone := taken_visit hvisit
      obtain ⟨hdealt, hend⟩ := rounds hd hn wanted
        (h.visit hd hn (hrotated.mem_iff.2 hr) hvisit) (hrotated.trans hturned)
      refine ⟨hdealt, hend.imp_left fun hall => hall.trans ?_⟩
      omega

/-! ## What all of them took -/

/-- What the root items hold is what was taken. -/
theorem sum_held (h : Dealt chain roots units lots) (hd : Separate chain roots) :
    (roots.map fun r => held r.1 lots).sum = taken lots := by
  simp only [held_eq_count]
  rw [sum_count_takers hd.nodup, List.countP_map, taken]
  refine List.countP_congr fun lot hlot => ?_
  rw [Function.comp_apply, decide_eq_true_iff, Option.isSome_iff_exists]
  constructor
  · rintro ⟨r, -, hr⟩
    exact ⟨r.1, hr⟩
  · rintro ⟨k, hk⟩
    obtain ⟨r, hr, rfl, -⟩ := h.admitted lot hlot k hk
    exact ⟨r, hr, hk⟩

/-- If as many units were taken as the root items ask for, this is an assignment. -/
theorem isAssignment (h : Dealt chain roots units lots) (hd : Separate chain roots)
    (hfull : taken lots = (roots.map (·.2.quantity.toNat)).sum) :
    IsAssignment (fun r i => chain.admits r i) roots units (lots.map Lot.taker) where
  suited := by
    rw [← h.items, List.forall₂_map_left_iff, List.forall₂_map_right_iff, List.forall₂_same]
    exact h.admitted
  filled r hr := by
    rw [← held_eq_count]
    by_contra hne
    have hlt : (roots.map fun r => held r.1 lots).sum < (roots.map (·.2.quantity.toNat)).sum :=
      List.sum_lt_sum _ _ h.held_le ⟨r, hr, Nat.lt_of_le_of_ne (h.held_le r hr) hne⟩
    rw [h.sum_held hd, hfull] at hlt
    exact Nat.lt_irrefl _ hlt

end Dealt

/-! ## Where all visits are in vain -/

/-- A root item and those that took a unit that names no token and that it could have had. -/
def contenders (chain : Chain) (roots : List (Nat × OrderItem)) (lots : List Lot)
    (r : Nat × OrderItem) : List (Nat × OrderItem) :=
  roots.filter fun k => k == r || lots.any fun lot =>
    !lot.item.hasToken && lot.taker == some k.1 && chain.admits r.2 lot.item

theorem mem_contenders {r k : Nat × OrderItem} : k ∈ contenders chain roots lots r ↔
    k ∈ roots ∧ (k = r ∨ ∃ lot ∈ lots, lot.item.hasToken = false ∧ lot.taker = some k.1 ∧
      chain.admits r.2 lot.item = true) := by
  simp [contenders, and_assoc]

/-- A root item that asks for more has left nothing that it could take. -/
theorem taker_ne_none {r : Nat × OrderItem} (hvisit : visit chain lots r = none)
    (hneeds : held r.1 lots < r.2.quantity.toNat) {lot : Lot} (hlot : lot ∈ lots)
    (hadmits : chain.admits r.2 lot.item = true) : lot.taker ≠ none := by
  intro hnone
  rw [visit, if_pos hneeds] at hvisit
  rw [takeFirst_eq_none hvisit lot hlot hnone] at hadmits
  cases hadmits

namespace Dealt

/-- Whatever a contender could take, a contender took. -/
theorem taker_mem_contenders (h : Dealt chain roots units lots) (hd : Separate chain roots)
    {r : Nat × OrderItem} (hr : r ∈ roots) (hvisit : Search.visit chain lots r = none)
    (hneeds : held r.1 lots < r.2.quantity.toNat) {k : Nat × OrderItem}
    (hk : k ∈ contenders chain roots lots r) {lot : Lot} (hlot : lot ∈ lots)
    (hadmits : chain.admits k.2 lot.item = true) :
    ∃ k' ∈ contenders chain roots lots r, lot.taker = some k'.1 := by
  obtain ⟨hk, hrival⟩ := mem_contenders.1 hk
  cases hnamed : lot.item.hasToken with
  | true =>
    -- it was not left, and nobody else can have taken it
    have htaken : lot.taker ≠ none := by
      rcases hrival with rfl | ⟨other, hother, hopen, htaker, -⟩
      · exact taker_ne_none hvisit hneeds hlot hadmits
      · exact h.spared k hk other hother hopen htaker lot hlot hnamed hadmits
    obtain ⟨j, hj⟩ := Option.ne_none_iff_exists'.1 htaken
    obtain ⟨k', hk', rfl, hadmits'⟩ := h.admitted lot hlot j hj
    obtain rfl := hd.named hk hk' hnamed hadmits hadmits'
    exact ⟨k, mem_contenders.2 ⟨hk, hrival⟩, hj⟩
  | false =>
    -- the root item could have had it as well
    have hwanted : chain.admits r.2 lot.item = true := by
      rcases hrival with rfl | ⟨other, hother, hopen, htaker, hcommon⟩
      · exact hadmits
      · obtain ⟨k', hk', hkey, hown⟩ := h.admitted other hother k.1 htaker
        obtain rfl := hd.eq_of_key hk' hk hkey
        exact hd.unnamed hk hr hopen hnamed hown hcommon hadmits
    obtain ⟨j, hj⟩ := Option.ne_none_iff_exists'.1 (taker_ne_none hvisit hneeds hlot hwanted)
    obtain ⟨k', hk', rfl, -⟩ := h.admitted lot hlot j hj
    exact ⟨k', mem_contenders.2 ⟨hk', Or.inr ⟨lot, hlot, hnamed, hj, hwanted⟩⟩, hj⟩

/-- No assignment gives the contenders more than they took. -/
theorem countP_contenders_le (h : Dealt chain roots units lots) (hd : Separate chain roots)
    {r : Nat × OrderItem} (hr : r ∈ roots) (hvisit : Search.visit chain lots r = none)
    (hneeds : held r.1 lots < r.2.quantity.toNat) {takers : List (Option Nat)}
    (ha : IsAssignment (fun r i => chain.admits r i) roots units takers) :
    takers.countP (fun t => decide (∃ k ∈ contenders chain roots lots r, t = some k.1)) ≤
      (lots.map Lot.taker).countP fun t =>
        decide (∃ k ∈ contenders chain roots lots r, t = some k.1) := by
  have hsuited := ha.suited
  rw [← h.items, List.forall₂_map_left_iff] at hsuited
  have hpairs : List.Forall₂ (fun t lot => lot ∈ lots ∧
      GoesTo (fun r i => chain.admits r i) roots lot.item t) takers lots :=
    (forall₂_imp_mem hsuited fun lot hlot t _ hgoes => And.intro hlot hgoes).flip
  rw [List.countP_map]
  refine countP_le_of_forall₂ hpairs ?_
  rintro t lot ⟨hlot, hgoes⟩ hamong
  obtain ⟨k, hk, rfl⟩ := of_decide_eq_true hamong
  obtain ⟨k', hk', hkey, hadmits⟩ := hgoes k.1 rfl
  obtain rfl := hd.eq_of_key hk' (mem_contenders.1 hk).1 hkey
  exact decide_eq_true (h.taker_mem_contenders hd hr hvisit hneeds hk hlot hadmits)

/-- **None goes short**: where all visits are in vain, a root item holds as many units as
    it asks for, if there is an assignment.  Else it and its contenders would ask for more
    than there is for them. -/
theorem served (h : Dealt chain roots units lots) (hd : Separate chain roots)
    (hstuck : ∀ r ∈ roots, Search.visit chain lots r = none) {takers : List (Option Nat)}
    (ha : IsAssignment (fun r i => chain.admits r i) roots units takers)
    {r : Nat × OrderItem} (hr : r ∈ roots) : held r.1 lots = r.2.quantity.toNat := by
  by_contra hne
  have hneeds := Nat.lt_of_le_of_ne (h.held_le r hr) hne
  let rivals := contenders chain roots lots r
  have hrivals : ∀ k ∈ rivals, k ∈ roots := fun k hk => (mem_contenders.1 hk).1
  have hself : r ∈ rivals := mem_contenders.2 ⟨hr, Or.inl rfl⟩
  have hkeys : (rivals.map Prod.fst).Nodup := hd.nodup.sublist (List.filter_sublist.map _)
  have hlt : (rivals.map fun k => held k.1 lots).sum < (rivals.map (·.2.quantity.toNat)).sum :=
    List.sum_lt_sum _ _ (fun k hk => h.held_le k (hrivals k hk)) ⟨r, hself, hneeds⟩
  have hle : (rivals.map (·.2.quantity.toNat)).sum ≤ (rivals.map fun k => held k.1 lots).sum := calc
    _ = (rivals.map fun k => takers.count (some k.1)).sum :=
      congrArg List.sum (List.map_congr_left fun k hk => (ha.filled k (hrivals k hk)).symm)
    _ = takers.countP fun t => decide (∃ k ∈ rivals, t = some k.1) := sum_count_takers hkeys takers
    _ ≤ (lots.map Lot.taker).countP fun t => decide (∃ k ∈ rivals, t = some k.1) :=
      h.countP_contenders_le hd hr (hstuck r hr) hneeds ha
    _ = (rivals.map fun k => held k.1 lots).sum := by
      simp only [held_eq_count]
      exact (sum_count_takers hkeys _).symm
  exact Nat.lt_irrefl _ (Nat.lt_of_lt_of_le hlt hle)

end Dealt

/-! ## Greedy visits -/

theorem map_snd_numbered (items : List OrderItem) : (numbered items).map Prod.snd = items :=
  List.map_snd_zip (Nat.le_of_eq List.length_range.symm)

theorem mem_of_mem_numbered {items : List OrderItem} {r : Nat × OrderItem}
    (hr : r ∈ numbered items) : r.2 ∈ items := map_snd_numbered items ▸ List.mem_map_of_mem hr

theorem map_fst_numbered (items : List OrderItem) :
    (numbered items).map Prod.fst = List.range items.length :=
  List.map_fst_zip (Nat.le_of_eq List.length_range)

/-- **Greedy visits miss nothing**: where the units that name a token come first, they place
    as many units as the order is for exactly if these can be given to its items. -/
theorem greedy_complete {root : LoadedOrder} {line : List LoadedOrder} (hroot : root.Bound)
    (hd : Separate chain (numbered root.items))
    (hn : NamedFirst (line.filterMap LoadedOrder.unit?)) :
    taken (greedy chain root line) = root.order.numItems.toNat ↔
      Assignable (fun r i => chain.admits r i) (numbered root.items)
        (line.filterMap LoadedOrder.unit?) := by
  have htotal :
      ((numbered root.items).map (·.2.quantity.toNat)).sum = root.order.numItems.toNat := by
    rw [← hroot.total]
    nth_rewrite 2 [← map_snd_numbered root.items]
    rw [List.map_map]
    rfl
  obtain ⟨hdealt, hend⟩ := Dealt.rounds hd hn root.order.numItems.toNat (.init chain _ _) (.refl _)
  rw [taken_of_none, Nat.zero_add] at hend
  constructor
  · intro hfull
    exact ⟨_, hdealt.isAssignment hd (hfull.trans htotal.symm)⟩
  · rintro ⟨takers, ha⟩
    refine hend.elim id fun hstuck => ?_
    rw [← htotal, greedy, ← hdealt.sum_held hd]
    exact congrArg List.sum (List.map_congr_left fun r hr => hdealt.served hd hstuck ha hr)

end Matchbook.Search
