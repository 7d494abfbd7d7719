import RoutePolicy.Proofs.Document.Net
import RoutePolicy.Proofs.Net.History

set_option autoImplicit false

/-! # Nets that are written and read again

The text of a net holds its nodes and arcs, and not its tables. A net with a history has only numbers
that fit the text (`Net.WellFormed.fits`), so what is read is the net with new tables, and those are
the tables that it had unless a node was renamed (`Net.history_reloads`). -/

namespace RoutePolicy

namespace Net

variable {net net' : Net}

/-- There are no more nodes and arcs of a kind than numbers of 32 bits. -/
structure Numbered (net : Net) : Prop where
  places : net.places.size ≤ handleRange
  transitions : net.transitions.size ≤ handleRange
  arcs : net.arcs.size ≤ handleRange

/-- The second net has the nodes and arcs of the first one and the tables that follow from them. -/
structure Reindexes (net net' : Net) : Prop where
  id : net'.id = net.id
  places : net'.places = net.places
  transitions : net'.transitions = net.transitions
  arcs : net'.arcs = net.arcs
  placeNames : net'.placeNames = net.reindex.placeNames
  transitionNames : net'.transitionNames = net.reindex.transitionNames

/-- An identifier gives the last of the nodes of a kind that carry it. -/
structure FindsLast (net : Net) : Prop where
  place : ∀ id p, net.placeById id = some p ↔ net.places.IsLast (·.id) id p
  transition : ∀ id t, net.transitionById id = some t ↔ net.transitions.IsLast (·.id) id t

theorem Indexed.findsLast (h : net.Indexed) : net.FindsLast :=
  ⟨fun _ _ => h.placeById_eq_some_iff, fun _ _ => h.transitionById_eq_some_iff⟩

theorem Numbered.of_contains (h : net.Numbered) {n : Node} (hn : net.contains n = true) :
    n.index < handleRange := by
  obtain ⟨k, i⟩ := n
  cases k with
  | place => exact Nat.lt_of_lt_of_le (Arena.contains_iff.mp hn) h.places
  | transition => exact Nat.lt_of_lt_of_le (Arena.contains_iff.mp hn) h.transitions

/-- The lists of a well-formed net number arcs that exist, and the arcs nodes that exist. -/
theorem WellFormed.fits (h : net.WellFormed) (hcounted : net.Counted) (hnumbered : net.Numbered) :
    net.Fits := by
  -- a listed arc exists, so its number is below that of the arcs
  have hlisted (n : Node) (as : List ArcId)
      (has : net.outgoing? n = some as ∨ net.incoming? n = some as) :
      ∀ a ∈ as, a.index < handleRange := fun a ha =>
    Nat.lt_of_lt_of_le (Arena.contains_iff.mp (h.registered.existing n as has a ha)) hnumbered.arcs
  constructor
  case places =>
    intro x hx
    obtain ⟨p, hp⟩ := Arena.exists_get?_of_mem hx
    have hout : net.outgoing? p.node = some x.outgoing := congrArg (Option.map Place.outgoing) hp
    have hin : net.incoming? p.node = some x.incoming := congrArg (Option.map Place.incoming) hp
    exact ⟨hcounted x hx, hlisted _ _ (Or.inr hin), hlisted _ _ (Or.inl hout)⟩
  case transitions =>
    intro x hx
    obtain ⟨t, ht⟩ := Arena.exists_get?_of_mem hx
    have hout : net.outgoing? t.node = some x.outgoing :=
      congrArg (Option.map Transition.outgoing) ht
    have hin : net.incoming? t.node = some x.incoming :=
      congrArg (Option.map Transition.incoming) ht
    exact ⟨hlisted _ _ (Or.inr hin), hlisted _ _ (Or.inl hout)⟩
  case arcs =>
    intro arc harc
    exact ⟨hnumbered.of_contains (h.source arc harc), hnumbered.of_contains (h.target arc harc)⟩

/-- **Reading a net again makes its tables anew.** Whatever has been done to the net, what is read
has the same nodes, arcs, lists and numbers; and if no node was renamed, the new tables are those
that the net had, which give the last node of an identifier. -/
theorem history_reloads (id : String) {changes : List Change}
    (hcounts : ∀ change ∈ changes, change.HasCounts) :
    let net := (empty id).history changes
    (net.Numbered → ∃ net', (∀ f : Format, f.read? (f.write net) = some net') ∧
      net.Reindexes net' ∧
      ((∀ change ∈ changes, change.renames = false) → ∀ name,
        net'.placeById name = net.placeById name ∧
          net'.transitionById name = net.transitionById name)) ∧
    ((∀ change ∈ changes, change.renames = false) → net.reindex = net ∧ net.FindsLast) := by
  intro net
  have hwf : net.WellFormed := wellFormed_history id changes
  have hindexed (hrenames : ∀ change ∈ changes, change.renames = false) : net.Indexed :=
    indexed_history id hcounts hrenames
  constructor
  · intro hnumbered
    have hfits : net.Fits := hwf.fits (counted_history id hcounts) hnumbered
    refine ⟨net.reindex, Format.read?_write_net hfits, ⟨rfl, rfl, rfl, rfl, rfl, rfl⟩, ?_⟩
    intro hrenames name
    rw [indexed_iff_reindex.mp (hindexed hrenames)]
    exact ⟨rfl, rfl⟩
  · intro hrenames
    exact ⟨indexed_iff_reindex.mp (hindexed hrenames), (hindexed hrenames).findsLast⟩

/-- Two places of one name, a transition that fires and fails to fire again, an arc that moves to the
second place, and markers and a context written directly. -/
def stocking : List Change :=
  [.call (.addPlace (.plain "stock" 1)), .call (.addPlace (.plain "stock" 0)),
    .call (.addTransition (.bare "sell" none)), .call (.addArc ⟨⟨.place, 0⟩, ⟨.transition, 0⟩⟩),
    .call (.addArc ⟨⟨.transition, 0⟩, ⟨.place, 0⟩⟩), .call (.setTarget ⟨1⟩ ⟨.place, 1⟩),
    .call (.fireTransition ⟨0⟩), .call (.fireTransition ⟨0⟩), .setMarkers ⟨0⟩ 18446744073709551615,
    .setContext ⟨0⟩ fun _ => some (.ofRole .control)]

/-- The same, and the first place under another name at the end. -/
def relabelling : List Change := stocking ++ [.renamePlace ⟨0⟩ "shelf"]

/-- The last place of the name is found before and after, and a new name only after. -/
theorem history_reloads_stocking :
    let net := (empty "net").history stocking
    let relabelled := (empty "net").history relabelling
    (∃ net' : Net, (∀ f : Format, f.read? (f.write net) = some net') ∧
      net'.placeById "stock" = net.placeById "stock") ∧
    net.placeById "stock" = some ⟨1⟩ ∧ relabelled.placeById "shelf" = none ∧
    ∃ net' : Net, (∀ f : Format, f.read? (f.write relabelled) = some net') ∧
      net'.placeById "shelf" = some ⟨0⟩ := by
  have hcounts : ∀ change ∈ relabelling, change.HasCounts := by
    simp [relabelling, stocking, Change.HasCounts, Call.HasCount, Place.plain, countRange]
  have hrenames : ∀ change ∈ stocking, change.renames = false := by
    simp [stocking, Change.renames]
  obtain ⟨hplain, -⟩ := history_reloads "net" fun change hchange =>
    hcounts change (List.mem_append_left _ hchange)
  obtain ⟨hrenamed, -⟩ := history_reloads "net" hcounts
  obtain ⟨net₁, hread₁, -, hsame⟩ :=
    hplain ⟨by decide +kernel, by decide +kernel, by decide +kernel⟩
  obtain ⟨net₂, hread₂, hnew, -⟩ :=
    hrenamed ⟨by decide +kernel, by decide +kernel, by decide +kernel⟩
  refine ⟨⟨net₁, hread₁, (hsame hrenames "stock").1⟩, by decide +kernel, by decide +kernel, net₂,
    hread₂, ?_⟩
  rw [placeById, hnew.placeNames]
  decide +kernel

end Net

end RoutePolicy
