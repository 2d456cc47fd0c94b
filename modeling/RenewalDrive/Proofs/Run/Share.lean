import RenewalDrive.Proofs.Run.Foreign

/-!
# The share of one name

In a registry of distinct names the deeds of a call fall into turns of a single job, with
foreign deeds between them. `Turn` lists what can happen to the job of a name, so whatever
holds after every turn holds throughout every run, however many domains are driven.
-/

namespace RenewalDrive

/-!
## Distinct names
-/

theorem find?_of_nodup {α : Type} {nameOf : α -> String} {items : List α} {item : α}
    (hnodup : (items.map nameOf).Nodup) (hitem : item ∈ items) :
    items.find? (fun other => nameOf other = nameOf item) = some item := by
  induction items with
  | nil =>
      cases hitem
  | cons first rest ih =>
      rw [List.map_cons, List.nodup_cons] at hnodup
      rcases hnodup with ⟨hfirst, hrest⟩
      rcases List.mem_cons.mp hitem with rfl | hitem
      · exact List.find?_cons_of_pos (by simp)
      · have hother : nameOf first ≠ nameOf item := by
          intro hname
          rw [hname] at hfirst
          exact hfirst (List.mem_map_of_mem hitem)
        rw [List.find?_cons_of_neg (by simpa using hother)]
        exact ih hrest hitem

namespace Registry

def Distinct (registry : Registry) : Prop :=
  (registry.domains.map (·.name)).Nodup

theorem watchedNames_nodup {registry : Registry} (h : registry.Distinct) :
    registry.watchedNames.Nodup := by
  unfold watchedNames
  exact h.sublist (List.filter_sublist.map _)

theorem get?_of_mem {registry : Registry} {domain : ManagedDomain} (h : registry.Distinct)
    (hdomain : domain ∈ registry.domains) : registry.get? domain.name = some domain :=
  find?_of_nodup h hdomain

theorem contains_of_mem_watchedNames {registry : Registry} {name : String}
    (h : name ∈ registry.watchedNames) : registry.contains name = true := by
  unfold watchedNames at h
  rcases List.mem_map.mp h with ⟨domain, hdomain, hname⟩
  rw [contains, get?, List.find?_isSome]
  exact ⟨domain, (List.mem_filter.mp hdomain).1, by simpa using hname⟩

end Registry

structure DriveContext.Sound (context : DriveContext) : Prop where
  distinct : context.registry.Distinct
  names : context.jobs.map (·.name) = context.registry.watchedNames

theorem DriveContext.Sound.nodup {context : DriveContext} (h : context.Sound) :
    (context.jobs.map (·.name)).Nodup := by
  rw [h.names]
  exact Registry.watchedNames_nodup h.distinct

theorem DriveContext.Sound.watched {context : DriveContext} {job : DriveJob} (h : context.Sound)
    (hjob : job ∈ context.jobs) : context.registry.contains job.name = true := by
  apply Registry.contains_of_mem_watchedNames
  rw [← h.names]
  exact List.mem_map_of_mem hjob

/-!
## The part of one item in a list of acts
-/

/-- At most one item of a list is dealt with by more than other deeds. -/
inductive Portion {α β : Type} (deals : α -> List Deed -> β -> Prop) (other : Deed -> Prop) :
    Option α -> List Deed -> Option β -> Prop where
  | absent {deeds : List Deed} :
      (forall deed, deed ∈ deeds -> other deed) -> Portion deals other none deeds none
  | present {item : α} {result : β} {before own after : List Deed} :
      (forall deed, deed ∈ before -> other deed) ->
      deals item own result ->
      (forall deed, deed ∈ after -> other deed) ->
      Portion deals other (some item) (before ++ (own ++ after)) (some result)

theorem Portion.append_other {α β : Type} {deals : α -> List Deed -> β -> Prop}
    {other : Deed -> Prop} {item : Option α} {result : Option β} {deeds more : List Deed}
    (h : Portion deals other item deeds result) (hmore : forall deed, deed ∈ more -> other deed) :
    Portion deals other item (deeds ++ more) result := by
  have hboth : forall {first : List Deed}, (forall deed, deed ∈ first -> other deed) ->
      forall deed, deed ∈ first ++ more -> other deed := by
    intro first hfirst deed hdeed
    rcases List.mem_append.mp hdeed with hdeed | hdeed
    · exact hfirst deed hdeed
    · exact hmore deed hdeed
  cases h with
  | absent hother =>
      exact Portion.absent (hboth hother)
  | present hbefore hdeals hafter =>
      rw [List.append_assoc, List.append_assoc]
      exact Portion.present hbefore hdeals (hboth hafter)

theorem Portion.cons_other {α β : Type} {deals : α -> List Deed -> β -> Prop}
    {other : Deed -> Prop} {item : Option α} {result : Option β} {deed : Deed} {deeds : List Deed}
    (h : Portion deals other item deeds result) (hdeed : other deed) :
    Portion deals other item (deed :: deeds) result := by
  cases h with
  | absent hother =>
      exact Portion.absent (List.forall_mem_cons.mpr ⟨hdeed, hother⟩)
  | present hbefore hdeals hafter =>
      rw [← List.cons_append]
      exact Portion.present (List.forall_mem_cons.mpr ⟨hdeed, hbefore⟩) hdeals hafter

namespace Each

variable {α β : Type} {deals : α -> List Deed -> β -> Prop} {items : List α} {deeds : List Deed}
  {results : List β} {itemName : α -> String} {resultName : β -> String}

theorem map_eq {γ : Type} {itemPart : α -> γ} {resultPart : β -> γ}
    (h : Each deals items deeds results)
    (hpart : forall item deeds result, deals item deeds result ->
      resultPart result = itemPart item) :
    results.map resultPart = items.map itemPart := by
  induction h with
  | nil =>
      rfl
  | cons hdeals _ ih =>
      rw [List.map_cons, List.map_cons, ih, hpart _ _ _ hdeals]

theorem absent {other : Deed -> Prop} {name : String} (h : Each deals items deeds results)
    (hname : forall item deeds result, deals item deeds result ->
      resultName result = itemName item)
    (hother : forall item deeds result, itemName item ≠ name -> deals item deeds result ->
      forall deed, deed ∈ deeds -> other deed)
    (hmissing : name ∉ items.map itemName) :
    (forall deed, deed ∈ deeds -> other deed) ∧
      results.find? (fun result => resultName result = name) = none := by
  induction h with
  | nil =>
      exact ⟨fun deed hdeed => absurd hdeed List.not_mem_nil, rfl⟩
  | @cons item rest first second result results hdeals _ ih =>
      rw [List.map_cons, List.mem_cons, not_or] at hmissing
      rcases hmissing with ⟨hitem, hrest⟩
      rcases ih hrest with ⟨hdeeds, hfind⟩
      constructor
      · intro deed hdeed
        rcases List.mem_append.mp hdeed with hdeed | hdeed
        · exact hother item first result (Ne.symm hitem) hdeals deed hdeed
        · exact hdeeds deed hdeed
      · rw [List.find?_cons_of_neg, hfind]
        simpa [hname item first result hdeals] using Ne.symm hitem

theorem portion (other : Deed -> Prop) (name : String) (h : Each deals items deeds results)
    (hnodup : (items.map itemName).Nodup)
    (hname : forall item deeds result, deals item deeds result ->
      resultName result = itemName item)
    (hother : forall item deeds result, itemName item ≠ name -> deals item deeds result ->
      forall deed, deed ∈ deeds -> other deed) :
    Portion (fun item own result => itemName item = name ∧ deals item own result) other
      (items.find? fun item => itemName item = name) deeds
      (results.find? fun result => resultName result = name) := by
  induction h with
  | nil =>
      exact Portion.absent fun _ hdeed => absurd hdeed List.not_mem_nil
  | @cons item rest first second result results hdeals heach ih =>
      rw [List.map_cons, List.nodup_cons] at hnodup
      rcases hnodup with ⟨hitem, hrest⟩
      have hresult := hname item first result hdeals
      by_cases heq : itemName item = name
      · rw [heq] at hitem
        rcases absent heach hname hother hitem with ⟨hdeeds, _⟩
        rw [List.find?_cons_of_pos (by simpa using heq),
          List.find?_cons_of_pos (by simpa [hresult] using heq)]
        rw [← List.nil_append (first ++ second)]
        exact Portion.present (fun _ hdeed => absurd hdeed List.not_mem_nil) ⟨heq, hdeals⟩ hdeeds
      · rw [List.find?_cons_of_neg (by simpa using heq),
          List.find?_cons_of_neg (by simpa [hresult] using heq)]
        have hfirst := hother item first result heq hdeals
        have hportion := ih hrest
        revert hportion
        generalize (rest.find? fun item => itemName item = name) = found
        generalize (results.find? fun result => resultName result = name) = made
        intro hportion
        cases hportion with
        | absent hsecond =>
            refine Portion.absent ?_
            intro deed hdeed
            rcases List.mem_append.mp hdeed with hdeed | hdeed
            · exact hfirst deed hdeed
            · exact hsecond deed hdeed
        | present hbefore hown hafter =>
            rw [← List.append_assoc]
            refine Portion.present ?_ hown hafter
            intro deed hdeed
            rcases List.mem_append.mp hdeed with hdeed | hdeed
            · exact hfirst deed hdeed
            · exact hbefore deed hdeed

end Each

end RenewalDrive
