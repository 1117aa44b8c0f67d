import VideoRegistry.Proofs.Claiming
import VideoRegistry.Proofs.Ordering

/-!
# Sequences of passes

Closing and ordering may be run in any order and any number of times.  Every pass
that succeeds leaves the lists in step with the ownership and free of repeats, and
touches nothing else.  Closing only adds to the lists; ordering only rearranges
them.
-/

namespace VideoRegistry.Registry

variable {read registry closed ordered after : Registry} {extension : Nat}

/-- A pass over the lists of a registry. -/
inductive Pass where
  | close
  | order
deriving DecidableEq, Repr

def Pass.run : Pass → Registry → Checked Registry
  | .close, registry => registry.close
  | .order, registry => registry.order

/-- Runs passes one behind the other, as long as they succeed. -/
def runPasses (passes : List Pass) (registry : Registry) : Checked Registry :=
  passes.foldlM (fun registry pass => pass.run registry) registry

/-- A registry without its lists and without owners. -/
def frame (registry : Registry) : Registry :=
  { registry with
    ownership := Ownership.empty
    extensions := registry.extensions.map bare }

/-! ## Closing only adds -/

theorem closeList_sublist {names : List String} {claims after : Claims}
    (hrun : registry.closeList extension claims names = .ok after) :
    (claims.settled ++ names).Sublist after.settled := by
  induction names generalizing claims with
  | nil =>
      rw [closeList] at hrun
      obtain rfl := Except.ok.inj hrun
      rw [List.append_nil]
  | cons name rest ih =>
      rw [closeList_cons] at hrun
      obtain ⟨walked, hwalk, hrun⟩ := bind_eq_ok_iff.1 hrun
      obtain ⟨added, -, hsettled⟩ := claimEntry_grows hwalk
      have hgrown : claims.settled.Sublist walked.settled :=
        hsettled ▸ List.sublist_append_left claims.settled added
      have hrest := ih hrun
      rw [List.append_assoc] at hrest
      exact (hgrown.append_right (name :: rest)).trans hrest

/-- Closing keeps the entries of every list, in their order. -/
theorem close_sublist (hrun : registry.close = .ok closed) (position : Nat) :
    (registry.listOf position).Sublist (closed.listOf position) := by
  obtain ⟨reached, claims, -, hlist, -, hclosed⟩ := close_closeList hrun position
  rw [hclosed]
  exact closeList_sublist hlist

/-- Whoever owned a type before closing owns it afterwards. -/
theorem close_owns (hrun : registry.close = .ok closed) {name : String}
    {owner : Nat} (howns : registry.ownership.owns name owner) :
    closed.ownership.owns name owner := by
  rw [← Ownership.mem_ownersOf_iff] at howns ⊢
  rwa [(close_assigns hrun).kept name (List.ne_nil_of_mem howns)]

/-! ## What every pass keeps -/

theorem close_frame (hstep : registry.InStep)
    (hrun : registry.close = .ok closed) : closed.frame = registry.frame := by
  have hbare := (close_spec hstep hrun).bare_eq
  rw [close] at hrun
  obtain ⟨⟨ownership, extensions⟩, -, hrun⟩ := bind_eq_ok_iff.1 hrun
  obtain rfl := pure_eq_ok_iff.1 hrun
  rw [frame, frame, hbare]

theorem order_frame (hrun : registry.order = .ok ordered) :
    ordered.frame = registry.frame := by
  have hbare := (order_spec hrun).bare_eq
  rw [order] at hrun
  obtain ⟨extensions, -, hrun⟩ := bind_eq_ok_iff.1 hrun
  obtain rfl := pure_eq_ok_iff.1 hrun
  rw [frame, frame, hbare]

/-- What stays true of a registry from pass to pass after it was read. -/
structure Kept (read registry : Registry) : Prop where
  inStep : registry.InStep
  listsDistinct : registry.ListsDistinct
  frame_eq : registry.frame = read.frame

theorem Kept.pass {pass : Pass} (hkept : read.Kept registry)
    (hrun : pass.run registry = .ok after) : read.Kept after := by
  cases pass with
  | close =>
      have hcloses := close_spec hkept.inStep hrun
      exact ⟨hcloses.inStep, hcloses.nodup hkept.listsDistinct,
        (close_frame hkept.inStep hrun).trans hkept.frame_eq⟩
  | order =>
      have horders := order_spec hrun
      exact ⟨horders.inStep hkept.inStep, horders.listsDistinct,
        (order_frame hrun).trans hkept.frame_eq⟩

theorem Kept.passes {passes : List Pass} (hkept : read.Kept registry)
    (hrun : registry.runPasses passes = .ok after) : read.Kept after :=
  foldlM_keeps (fun _ _ _ hbefore hpass => hbefore.pass hpass) hkept hrun

theorem Orders.perm (horders : registry.Orders ordered)
    (hdistinct : registry.ListsDistinct) (position : Nat) :
    (ordered.listOf position).Perm (registry.listOf position) := by
  have hbefore : (registry.listOf position).Nodup := by
    cases hextension : registry.extensions[position]? with
    | none => simp [listOf, hextension]
    | some extension =>
        rw [listOf_eq hextension]
        exact hdistinct extension (List.mem_of_getElem? hextension)
  exact (horders.arranges position).perm hbefore

/-- After any successful passes over a registry that was read, lists and ownership
are in step, no list has repeats, and all the rest is as it was read.  A further
closing only adds list entries and owners; a further ordering changes no owner and
only the order in the lists. -/
theorem runPasses_kept {config : Config} {document : Xml.Document}
    {passes : List Pass} (hread : readDocument config document = .ok read)
    (hrun : read.runPasses passes = .ok registry) :
    read.Kept registry ∧
      (∀ closed, registry.close = .ok closed →
        (∀ position,
          (registry.listOf position).Sublist (closed.listOf position)) ∧
        ∀ name owner, registry.ownership.owns name owner →
          closed.ownership.owns name owner) ∧
      ∀ ordered, registry.order = .ok ordered →
        ordered.ownership = registry.ownership ∧
        ∀ position,
          (ordered.listOf position).Perm (registry.listOf position) := by
  have hwell := readDocument_wellRead hread
  have hfirst : read.Kept read := ⟨hwell.inStep, hwell.listsDistinct, rfl⟩
  have hkept := hfirst.passes hrun
  refine ⟨hkept, ?_, ?_⟩
  · exact fun closed hclose =>
      ⟨close_sublist hclose, fun _ _ => close_owns hclose⟩
  · intro ordered horder
    have horders := order_spec horder
    exact ⟨horders.ownership_eq, horders.perm hkept.listsDistinct⟩

theorem shared_runPasses_kept :
    ∃ registry, readDocument Plain.brief sharedDocument = .ok shared ∧
      shared.runPasses [.close, .order, .close] = .ok registry ∧
      registry.extensions.map Extension.types = [["A", "B"], ["C"]] ∧
      shared.Kept registry := by
  let registry : Registry := { shared with
    ownership := ⟨[("A", 0), ("B", 0), ("C", 1)]⟩
    extensions := [Plain.extension "va" none ["A", "B"],
      Plain.extension "vb" (some 0) ["C"]] }
  have hread : readDocument Plain.brief sharedDocument = .ok shared :=
    readDocument_eq_ok_iff.2 ⟨by cbv, by decide⟩
  have hrun : shared.runPasses [.close, .order, .close] =
      .ok registry := by cbv
  exact ⟨registry, hread, hrun, rfl, (runPasses_kept hread hrun).1⟩

end VideoRegistry.Registry
