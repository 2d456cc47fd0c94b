import RenewalDrive.Config.Load
import RenewalDrive.Proofs.Domain.Window
import RenewalDrive.Proofs.Json.Ensures
import RenewalDrive.Proofs.Json.Nested

/-!
# Configurations survive being written

Every configuration that is read from a text has a check interval of 64 bits and windows that
can be read. Such a configuration is read back from both of its text forms: absent fields come
back as the defaults that are written for them, and windows in another unit as the same span.
-/

namespace RenewalDrive

open Json Reader

/-!
## What is read
-/

namespace RenewWindow

theorem ensures_reader : reader.Ensures (OfContent Readable) := by
  refine ensures_bind fun given => ensures_pure ?_
  intro window hwindow
  cases hgiven : ofText given with
  | error invalid =>
      rw [hgiven] at hwindow
      cases hwindow
  | ok read =>
      rw [hgiven] at hwindow
      cases hwindow
      exact ⟨given, hgiven⟩

theorem ensures_optionalReader :
    optionalReader.Ensures
      (OfContent fun window => forall own, window = some own -> own.Readable) := by
  refine ensures_reader.optional.bind fun given hgiven => ?_
  split
  · refine ensures_pure ?_
    rintro _ ⟨⟩ _ ⟨⟩
  next content =>
    refine ensures_pure ?_
    intro window hwindow
    cases content with
    | error cause => cases hwindow
    | ok own =>
        cases hwindow
        rintro _ ⟨⟩
        exact hgiven _ rfl own rfl

theorem keeps_field {δ α : Type} {part : δ -> Option α} {put : δ -> α -> δ}
    {r : Reader (Except Cause α)} {value : α -> Prop} {holds : δ -> Prop}
    (hr : r.Ensures (OfContent value))
    (hput : forall draft a, holds draft -> value a -> holds (put draft a)) :
    Keeps (field part put r) holds := by
  intro draft hdraft
  refine hr.bind fun content hcontent => ensures_pure ?_
  intro filled hfilled
  cases content with
  | error cause => cases hfilled
  | ok a =>
      cases hfilled
      exact hput draft a hdraft (hcontent a rfl)

theorem readable_default : default.Readable :=
  ⟨"33%", by rfl⟩

end RenewWindow

namespace DomainEntry

/-- The window of an entry, if it has its own, can be read. -/
def Readable (entry : DomainEntry) : Prop :=
  forall window, entry.renewWindow = some window -> window.Readable

def Draft.Readable (draft : Draft) : Prop :=
  forall window, draft.renewWindow = some (some window) -> window.Readable

theorem Draft.Readable.ofDraft {draft : Draft} {entry : DomainEntry} (h : draft.Readable)
    (hentry : ofDraft draft = .ok entry) : entry.Readable := by
  intro window hwindow
  unfold DomainEntry.ofDraft at hentry
  split at hentry
  · cases hentry
  · cases hentry
    refine h window ?_
    cases hown : draft.renewWindow with
    | none =>
        rw [hown] at hwindow
        cases hwindow
    | some own =>
        rw [hown] at hwindow
        exact congrArg some hwindow

theorem keeps_fields : forall field, field ∈ shape.fields -> Keeps field Draft.Readable := by
  simp only [shape, List.forall_mem_cons, List.not_mem_nil, false_imp_iff, implies_true, and_true]
  refine ⟨?_, ?_, ?_, ?_⟩
  · exact keeps_plain (ensures_any _) fun _ _ hdraft _ => hdraft
  · exact keeps_plain (ensures_any _) fun _ _ hdraft _ => hdraft
  · exact keeps_plain (ensures_any _) fun _ _ hdraft _ => hdraft
  · refine RenewWindow.keeps_field RenewWindow.ensures_optionalReader ?_
    intro draft own hdraft hown window hwindow
    exact hown window (Option.some.inj hwindow)

theorem ensures_reader : reader.Ensures Readable := by
  have hempty : shape.empty.Readable := by
    rintro _ ⟨⟩
  refine (ensures_record hempty keeps_fields).mono ?_
  rintro entry ⟨draft, hdraft, hfinish⟩
  exact hdraft.ofDraft hfinish

end DomainEntry

namespace Config

structure Readable (config : Config) : Prop where
  checkInterval : config.checkInterval ≤ checkIntervalLimit
  renewWindow : config.renewWindow.Readable
  domains : forall entry, entry ∈ config.domains -> entry.Readable

structure Draft.Readable (draft : Draft) : Prop where
  checkInterval : forall seconds, draft.checkInterval = some seconds -> seconds ≤ checkIntervalLimit
  renewWindow : forall window, draft.renewWindow = some window -> window.Readable
  domains : forall entries, draft.domains = some entries ->
    forall entry, entry ∈ entries -> entry.Readable

theorem Draft.Readable.ofDraft {draft : Draft} (h : draft.Readable) :
    (ofDraft draft).Readable := by
  constructor
  · show draft.checkInterval.getD defaultCheckInterval ≤ checkIntervalLimit
    cases hinterval : draft.checkInterval with
    | none => decide
    | some seconds => exact h.checkInterval seconds hinterval
  · show (draft.renewWindow.getD .default).Readable
    cases hwindow : draft.renewWindow with
    | none => exact RenewWindow.readable_default
    | some window => exact h.renewWindow window hwindow
  · show forall entry, entry ∈ draft.domains.getD [] -> entry.Readable
    cases hdomains : draft.domains with
    | none => exact List.forall_mem_nil _
    | some entries => exact h.domains entries hdomains

theorem keeps_fields : forall field, field ∈ shape.fields -> Keeps field Draft.Readable := by
  simp only [shape, List.forall_mem_cons, List.not_mem_nil, false_imp_iff, implies_true, and_true]
  refine ⟨?_, ?_, ?_, ?_, ?_, ?_⟩
  · exact keeps_plain (ensures_any _) fun _ _ hdraft _ =>
      ⟨hdraft.checkInterval, hdraft.renewWindow, hdraft.domains⟩
  · exact keeps_plain (ensures_any _) fun _ _ hdraft _ =>
      ⟨hdraft.checkInterval, hdraft.renewWindow, hdraft.domains⟩
  · exact keeps_plain (ensures_any _) fun _ _ hdraft _ =>
      ⟨hdraft.checkInterval, hdraft.renewWindow, hdraft.domains⟩
  · refine keeps_plain (ensures_natural checkIntervalLimit "u64") fun _ seconds hdraft hlimit =>
      ⟨?_, hdraft.renewWindow, hdraft.domains⟩
    rintro _ ⟨⟩
    exact hlimit
  · refine RenewWindow.keeps_field RenewWindow.ensures_reader fun _ window hdraft hwindow =>
      ⟨hdraft.checkInterval, ?_, hdraft.domains⟩
    rintro _ ⟨⟩
    exact hwindow
  · refine keeps_plain DomainEntry.ensures_reader.list fun _ entries hdraft hentries =>
      ⟨hdraft.checkInterval, hdraft.renewWindow, ?_⟩
    rintro _ ⟨⟩
    exact hentries

theorem ensures_reader : reader.Ensures Readable := by
  have hempty : shape.empty.Readable :=
    ⟨by rintro _ ⟨⟩, by rintro _ ⟨⟩, by rintro _ ⟨⟩⟩
  refine (ensures_record hempty keeps_fields).mono ?_
  rintro _ ⟨draft, hdraft, ⟨⟩⟩
  exact hdraft.ofDraft

theorem readable_of_ofText {text : String} {config : Config} (h : ofText text = .ok config) :
    config.Readable :=
  ensures_reader.of_readText h

end Config

/-!
## What is written
-/

theorem takesValue_plain {δ α : Type} {name : String} {isOptional : Bool} {part : δ -> Option α}
    {put : δ -> α -> δ} {r : Reader α} {value : Value} {a : α} (h : TakesValue r value a)
    (draft : δ) :
    TakesValue ((Field.plain name isOptional part put r).read draft) value (.ok (put draft a)) :=
  h.then rfl

theorem takesValue_texts (texts : List String) :
    TakesValue (Reader.list Reader.text) (.list (texts.map .text)) texts :=
  takesValue_list fun text _ => takesValue_literal (takes_text text)

theorem takesValue_textOrNull {r : Reader String}
    (h : forall text, r.Takes (literalBytes text) text) (text : Option String) :
    TakesValue r.optional (Config.textOrNull text) text := by
  cases text with
  | none => exact takesValue_null
  | some text => exact takesValue_literal (takes_optional_literal (h text))

theorem DriveMode.lookup_byName (mode : DriveMode) :
    DriveMode.byName.lookup mode.name = some mode := by
  cases mode <;> rfl

namespace RenewWindow

variable {window : RenewWindow}

theorem takes_reader (h : window.Readable) :
    reader.Takes (literalBytes window.text) (.ok window) := by
  refine (takes_text window.text).then ?_
  rw [h.ofText_text]
  rfl

theorem takesValue_reader (h : window.Readable) :
    TakesValue reader window.toJson (.ok window) :=
  takesValue_literal (takes_reader h)

theorem takesValue_optionalReader (h : window.Readable) :
    TakesValue optionalReader window.toJson (.ok (some window)) :=
  takesValue_literal ((takes_optional_literal (takes_reader h)).then rfl)

theorem takesValue_field {δ α : Type} {part : δ -> Option α} {put : δ -> α -> δ}
    {r : Reader (Except Cause α)} {value : Value} {a : α} (h : TakesValue r value (.ok a))
    (draft : δ) : TakesValue ((field part put r).read draft) value (.ok (put draft a)) :=
  h.then rfl

end RenewWindow

namespace DomainEntry

theorem takesValue_reader {entry : DomainEntry} (h : entry.Readable) :
    TakesValue reader entry.toJson entry := by
  -- The fields that an entry always has, and the window that it may have.
  have hfills : FillsWith shape.fields shape.empty
      [("name", .text entry.name), ("contacts", .list (entry.contacts.map .text)),
        ("drive_mode", .text entry.driveMode.name)]
      { name := some entry.name, contacts := some entry.contacts,
        driveMode := some entry.driveMode } := by
    refine .cons rfl rfl (takesValue_plain (takesValue_literal (takes_text _)) _) ?_
    refine .cons rfl rfl (takesValue_plain (takesValue_texts _) _) ?_
    refine .cons rfl rfl (takesValue_plain (takesValue_literal
      (takes_variant (DriveMode.lookup_byName _))) _) ?_
    exact .nil _
  cases hwindow : entry.renewWindow with
  | none =>
      unfold toJson
      rw [hwindow, List.append_nil]
      refine takesValue_record (List.cons_ne_nil _ _) hfills ?_
      show Except.ok _ = Except.ok entry
      rcases entry
      cases hwindow
      rfl
  | some window =>
      unfold toJson
      rw [hwindow]
      refine takesValue_record (List.cons_ne_nil _ _) (hfills.append (.cons rfl rfl
        (RenewWindow.takesValue_field
          (RenewWindow.takesValue_optionalReader (h window hwindow)) _) (.nil _))) ?_
      show Except.ok _ = Except.ok entry
      rcases entry
      cases hwindow
      rfl

end DomainEntry

namespace Config

theorem Readable.takesValue_reader {config : Config} (h : config.Readable) :
    TakesValue reader config.toJson config := by
  have hfills : FillsWith shape.fields shape.empty
      [("store_dir", textOrNull config.storeDirectory),
        ("notify_cmd", textOrNull config.notifyCommand),
        ("renew_cmd", textOrNull config.renewCommand),
        ("check_interval", .natural config.checkInterval),
        ("renew_window", config.renewWindow.toJson),
        ("domains", .list (config.domains.map DomainEntry.toJson))]
      { storeDirectory := some config.storeDirectory,
        notifyCommand := some config.notifyCommand, renewCommand := some config.renewCommand,
        checkInterval := some config.checkInterval, renewWindow := some config.renewWindow,
        domains := some config.domains } := by
    refine .cons rfl rfl (takesValue_plain (takesValue_textOrNull (takes_textAs _) _) _) ?_
    refine .cons rfl rfl (takesValue_plain (takesValue_textOrNull takes_text _) _) ?_
    refine .cons rfl rfl (takesValue_plain (takesValue_textOrNull takes_text _) _) ?_
    refine .cons rfl rfl (takesValue_plain
      (takesValue_natural "u64" h.checkInterval (by decide)) _) ?_
    refine .cons rfl rfl
      (RenewWindow.takesValue_field (RenewWindow.takesValue_reader h.renewWindow) _) ?_
    refine .cons rfl rfl (takesValue_plain (takesValue_list fun entry hentry =>
      DomainEntry.takesValue_reader (h.domains entry hentry)) _) ?_
    exact .nil _
  exact takesValue_record (List.cons_ne_nil _ _) hfills rfl

/-- A configuration that was read from a text is read again from either of its own text forms:
a file with that text loads with the same result, a flaw included, and the checks and the
windows of the domains are those of before. -/
theorem written_configuration_read_back (text : String) (config : Config)
    (h : ofText text = .ok config) (written : String)
    (hwritten : written = config.toJson.compact ∨ written = config.toJson.pretty) :
    ofText written = .ok config ∧
      (forall file, ofContent file (.ok written) = ofContent file (.ok text)) ∧
      forall again, ofText written = .ok again ->
        again.flaw? = config.flaw? ∧ again.cadence = config.cadence ∧
        again.domains.map (fun entry => (entry.name, again.window entry)) =
          config.domains.map fun entry => (entry.name, config.window entry) := by
  have hread : ofText written = .ok config := by
    rcases (readable_of_ofText h).takesValue_reader.readText with ⟨hcompact, hpretty⟩
    rcases hwritten with rfl | rfl
    · exact hcompact
    · exact hpretty
  refine ⟨hread, ?_, ?_⟩
  · intro file
    simp only [ofContent, hread, h]
  · intro again hagain
    cases hread.symm.trans hagain
    exact ⟨rfl, rfl, rfl⟩

/-- A text with a null, without most of the fields, with others in another order, and with a
window in minutes. -/
theorem configuration_in_minutes_read_back :
    let text := "\x7b\"renew_window\":\" 1440m\",\"store_dir\":null," ++
      "\"domains\":[\x7b\"drive_mode\":\"manual\",\"name\":\"a\"\x7d]\x7d"
    let config : Config :=
      { storeDirectory := none, notifyCommand := none, renewCommand := none,
        checkInterval := 86400, renewWindow := .fixed (.ofSeconds 86400),
        domains := [⟨"a", [], .manual, none⟩] }
    ofText text = .ok config ∧ ofText config.toJson.pretty = .ok config := by
  intro text config
  let entry : Value := .object [("drive_mode", .text "manual"), ("name", .text "a")]
  have hentry : TakesValue DomainEntry.reader entry ⟨"a", [], .manual, none⟩ := by
    have hfills : FillsWith DomainEntry.shape.fields DomainEntry.shape.empty
        [("drive_mode", .text "manual"), ("name", .text "a")]
        ⟨some "a", none, some .manual, none⟩ := by
      refine .cons rfl rfl (takesValue_plain (takesValue_literal (takes_variant rfl)) _) ?_
      exact .cons rfl rfl (takesValue_plain (takesValue_literal (takes_text "a")) _) (.nil _)
    exact takesValue_record (List.cons_ne_nil _ _) hfills rfl
  have hdomains : TakesValue DomainEntry.reader.list (.list [entry])
      [⟨"a", [], .manual, none⟩] := by
    have hlist : TakesValue DomainEntry.reader.list
        (.list ([⟨"a", [], .manual, none⟩].map fun _ : DomainEntry => entry))
        [⟨"a", [], .manual, none⟩] :=
      takesValue_list (List.forall_mem_singleton.mpr hentry)
    exact hlist
  have hfills : FillsWith shape.fields shape.empty
      [("renew_window", .text " 1440m"), ("store_dir", .null), ("domains", .list [entry])]
      ⟨some none, none, none, none, some (.fixed (.ofSeconds 86400)),
        some [⟨"a", [], .manual, none⟩]⟩ := by
    refine .cons rfl rfl (RenewWindow.takesValue_field
      (takesValue_literal ((takes_text " 1440m").then (by rfl))) _) ?_
    refine .cons rfl rfl (takesValue_plain takesValue_null _) ?_
    exact .cons rfl rfl (takesValue_plain hdomains _) (.nil _)
  have hvalue : TakesValue reader _ config :=
    takesValue_record (List.cons_ne_nil _ _) hfills rfl
  have hread : ofText text = .ok config := hvalue.readText.1
  exact ⟨hread, (written_configuration_read_back text config hread _ (Or.inr rfl)).1⟩

end Config
end RenewalDrive
