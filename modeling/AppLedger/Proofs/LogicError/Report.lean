import AppLedger.Ledger.Rejection
import AppLedger.LogicError.Report
import AppLedger.Proofs.Text.Base32
import AppLedger.Proofs.Text.Decimal
import AppLedger.Transaction.Codec
import Mathlib.Data.List.TakeWhile

/-! What is read from the text in which a ledger reports a failed program. The transaction, the
message and the program counter come out as they went in. The application is the first one that the
text names, and the message stands before the details. -/

namespace AppLedger.LogicError.Report

open Text

variable {α : Type} {word : String} {read : List Char → Option α} {a : α} {c : Char}
  {s before rest : List Char}

/-! ## Searching -/

theorem after?_append (word : String) (s : List Char) : after? word (word.toList ++ s) = some s := by
  have hprefix : word.toList.isPrefixOf (word.toList ++ s) = true :=
    List.isPrefixOf_iff_prefix.mpr (List.prefix_append _ _)
  have hlength : word.length = word.toList.length := String.length_toList.symm
  rw [after?, if_pos hprefix, hlength, List.drop_left]

theorem after?_eq_some (h : after? word s = some rest) : s = word.toList ++ rest := by
  rw [after?] at h
  by_cases hprefix : word.toList.isPrefixOf s = true
  · rw [if_pos hprefix] at h
    obtain ⟨tail, rfl⟩ := List.isPrefixOf_iff_prefix.mp hprefix
    have hlength : word.length = word.toList.length := String.length_toList.symm
    rw [hlength, List.drop_left] at h
    rw [Option.some.inj h]
  · rw [if_neg hprefix] at h
    exact absurd h nofun

theorem after?_eq_none (hc : c ∈ word.toList) (hs : c ∉ s) : after? word s = none := by
  cases h : after? word s with
  | none => rfl
  | some rest =>
    rw [after?_eq_some h] at hs
    exact absurd (List.mem_append_left rest hc) hs

/-- A word does not reach over a character that it does not have. -/
theorem after?_append_cons (hc : c ∉ word.toList) (s rest : List Char) :
    after? word (s ++ c :: rest) = (after? word s).map (· ++ c :: rest) := by
  cases hs : after? word s with
  | some tail =>
    rw [after?_eq_some hs, List.append_assoc, after?_append]
    rfl
  | none =>
    cases hall : after? word (s ++ c :: rest) with
    | none => rfl
    | some tail =>
      have heq := after?_eq_some hall
      rcases List.append_eq_append_iff.mp heq with ⟨mid, hword, hmid⟩ | ⟨mid, hmid, -⟩
      · cases mid with
        | nil =>
          have hwhole := after?_append word []
          rw [List.append_nil] at hword hwhole
          rw [← hword, hwhole] at hs
          exact absurd hs nofun
        | cons c' mid =>
          obtain rfl := (List.cons.inj hmid).1
          exact absurd (hword ▸ List.mem_append_right s List.mem_cons_self) hc
      · rw [hmid, after?_append] at hs
        exact absurd hs nofun

theorem splitLast?_eq_none (hc : c ∈ word.toList) (hs : c ∉ s) : splitLast? word read s = none := by
  induction s with
  | nil => rfl
  | cons d s ih =>
    have hrest : c ∉ s := fun hmem => hs (List.mem_cons_of_mem d hmem)
    rw [splitLast?, ih hrest, after?_eq_none hc hs]
    rfl

/-- The last place that is read is found where nothing behind it is. -/
theorem splitLast?_append (before : List Char) (hread : read rest = some a)
    (hword : word.toList = c :: s) (hlast : splitLast? word read (s ++ rest) = none) :
    splitLast? word read (before ++ (word.toList ++ rest)) = some (before, a) := by
  induction before with
  | nil =>
    have hhere : after? word (c :: (s ++ rest)) = some rest := by
      rw [← List.cons_append, ← hword]
      exact after?_append word rest
    rw [List.nil_append, hword, List.cons_append, splitLast?, hlast, hhere, Option.bind_some, hread]
    rfl
  | cons d before ih => rw [List.cons_append, splitLast?, ih]

theorem digits?_append_cons (hc : c.isDigit = false) (s rest : List Char) :
    digits? (s ++ c :: rest) = digits? s := by
  have hsame : (s ++ c :: rest).takeWhile Char.isDigit = s.takeWhile Char.isDigit := by
    induction s with
    | nil => simp [hc]
    | cons d s ih =>
      by_cases hd : d.isDigit = true
      · simp [hd, ih]
      · simp [hd]
  rw [digits?, hsame, digits?]

theorem digits?_chars (n : Nat) : digits? (Decimal.chars n) = some (Decimal.chars n) := by
  have hall : (Decimal.chars n).takeWhile Char.isDigit = Decimal.chars n :=
    List.takeWhile_eq_self_iff.mpr fun _ => Decimal.isDigit_of_mem_chars
  have hne : (Decimal.chars n).isEmpty = false :=
    List.isEmpty_eq_false_iff.mpr (Decimal.chars_ne_nil n)
  rw [digits?, hall, hne]
  rfl

/-! ## Applications -/

/-- In a text without an equals sign no application is named, nor over a blank at its end. -/
theorem appDigits?_skip {inWord : Bool} {before : List Char} (hlast : before.getLast? = some ' ')
    (hnone : '=' ∉ before) (rest : List Char) :
    appDigits? inWord (before ++ rest) = appDigits? false rest := by
  obtain ⟨before, rfl⟩ := List.getLast?_eq_some_iff.mp hlast
  rw [List.append_assoc, List.singleton_append]
  clear hlast
  induction before generalizing inWord with
  | nil =>
    have hafter : after? "app=" (' ' :: rest) = none := rfl
    have hblank : isWordChar ' ' = false := by decide +kernel
    rw [List.nil_append, appDigits?, hafter, hblank]
    cases inWord <;> rfl
  | cons d before ih =>
    rw [List.cons_append, List.mem_cons, not_or] at hnone
    have hbefore : '=' ∉ d :: before := by
      rw [List.mem_cons, not_or]
      exact ⟨hnone.1, fun hmem => hnone.2 (List.mem_append_left _ hmem)⟩
    have hafter : after? "app=" (d :: before ++ ' ' :: rest) = none := by
      rw [after?_append_cons (by decide), after?_eq_none (c := '=') (by decide) hbefore]
      rfl
    rw [List.cons_append] at hafter
    rw [List.cons_append, appDigits?, hafter, ih hnone.2]
    cases inWord <;> rfl

/-- What names an application does not reach over a full stop. -/
theorem appDigits?_stop (inWord : Bool) (s rest : List Char) :
    appDigits? inWord (s ++ '.' :: rest) = (appDigits? inWord s).or (appDigits? false rest) := by
  induction s generalizing inWord with
  | nil =>
    have hafter : after? "app=" ('.' :: rest) = none := rfl
    have hstop : isWordChar '.' = false := by decide +kernel
    have hnothing : appDigits? inWord [] = none := rfl
    rw [List.nil_append, hnothing, appDigits?, hafter, hstop]
    cases inWord <;> rfl
  | cons d s ih =>
    have hhere : (after? "app=" (d :: s ++ '.' :: rest)).bind digits? =
        (after? "app=" (d :: s)).bind digits? := by
      rw [after?_append_cons (by decide)]
      cases after? "app=" (d :: s) with
      | none => rfl
      | some tail => exact digits?_append_cons (by decide) tail rest
    rw [List.cons_append] at hhere
    rw [List.cons_append, appDigits?, hhere, ih, appDigits?, Option.or_assoc]

/-! ## Reports -/

/-- What a report says at its end. -/
def details (app pc : Nat) : List Char :=
  "app=".toList ++ (Decimal.chars app ++ (", pc=".toList ++ Decimal.chars pc))

/-- The report that the transaction has failed in the application with the message. -/
def report (id message : List Char) (app pc : Nat) : List Char :=
  "transaction ".toList ++ (id ++ (": logic eval error: ".toList ++
    (message ++ (". Details: ".toList ++ details app pc))))

/-- What a transaction's identity looks like. -/
def IsId (id : List Char) : Prop :=
  id.length = idLength ∧ id.all isIdChar = true

variable {id message : List Char} {app pc : Nat}

theorem not_mem_details (hc : c.isDigit = false) (hword : c ∉ "app=, pc=".toList) :
    c ∉ details app pc := by
  have hchars (n : Nat) : c ∉ Decimal.chars n := by
    intro hmem
    rw [Decimal.isDigit_of_mem_chars hmem] at hc
    exact absurd hc nofun
  have hsplit : "app=, pc=".toList = "app=".toList ++ ", pc=".toList := rfl
  rw [hsplit, List.mem_append, not_or] at hword
  simp only [details, List.mem_append, not_or]
  exact ⟨hword.1, hchars app, hword.2, hchars pc⟩

theorem pcDigits?_details (app pc : Nat) : pcDigits? (details app pc) = some (Decimal.chars pc) := by
  have hsplit : details app pc =
      ("app=".toList ++ (Decimal.chars app ++ ", ".toList)) ++ ("pc=".toList ++ Decimal.chars pc) := by
    have hcomma : ", pc=".toList = ", ".toList ++ "pc=".toList := rfl
    simp only [details, hcomma, List.append_assoc]
  have hlast : splitLast? "pc=" digits? ("c=".toList ++ Decimal.chars pc) = none := by
    refine splitLast?_eq_none (c := 'p') (by decide) fun hmem => ?_
    rcases List.mem_append.mp hmem with hword | hdigit
    · exact absurd hword (by decide)
    · exact absurd (Decimal.isDigit_of_mem_chars hdigit) (by decide)
  have hword : "pc=".toList = 'p' :: "c=".toList := rfl
  rw [pcDigits?, hsplit, splitLast?_append _ (digits?_chars pc) hword hlast]
  rfl

theorem id?_append (hid : IsId id) (rest : List Char) : id? (id ++ rest) = some (id, rest) := by
  obtain ⟨hlength, hall⟩ := hid
  rw [id?, ← hlength, List.take_left, List.drop_left]
  exact if_pos ⟨rfl, hall⟩

theorem parts?_report (hid : IsId id) (hmessage : '\n' ∉ message) (app pc : Nat) :
    parts? (report id message app pc) = some (id, message, Decimal.chars pc) := by
  have hline : (message ++ (". Details: ".toList ++ details app pc)).takeWhile (· ≠ '\n') =
      message ++ (". Details: ".toList ++ details app pc) := by
    rw [List.takeWhile_eq_self_iff]
    intro d hd
    rw [decide_eq_true_iff]
    rintro rfl
    rcases List.mem_append.mp hd with hd | hd
    · exact hmessage hd
    rcases List.mem_append.mp hd with hd | hd
    · exact absurd hd (by decide)
    · exact not_mem_details (by decide) (by decide) hd
  have hlast : splitLast? ". Details: " pcDigits? (" Details: ".toList ++ details app pc) =
      none := by
    refine splitLast?_eq_none (c := '.') (by decide) fun hmem => ?_
    rcases List.mem_append.mp hmem with hword | hdetails
    · exact absurd hword (by decide)
    · exact not_mem_details (by decide) (by decide) hdetails
  have htransaction := after?_append "transaction " (id ++ (": logic eval error: ".toList ++
    (message ++ (". Details: ".toList ++ details app pc))))
  have herror := after?_append ": logic eval error: "
    (message ++ (". Details: ".toList ++ details app pc))
  have hword : ". Details: ".toList = '.' :: " Details: ".toList := rfl
  have hread := splitLast?_append message (pcDigits?_details app pc) hword hlast
  unfold parts? report
  simp only [htransaction, Option.bind_eq_bind, Option.bind_some, id?_append hid, herror, hline,
    hread]
  rfl

theorem first?_report (hid : IsId id) (hmessage : '\n' ∉ message) (app pc : Nat) :
    first? parts? (report id message app pc) = some (id, message, Decimal.chars pc) := by
  have hparts := parts?_report hid hmessage app pc
  have hcons : report id message app pc = 't' :: (report id message app pc).tail := rfl
  rw [hcons] at hparts ⊢
  rw [first?, hparts, Option.some_or]

/-- The application that a text names first: the one in its message, or else its own. -/
def firstNamed (message : String) (app : UInt64) : Option Nat :=
  match appDigits? false message.toList with
  | some digits => Decimal.readBelow? UInt64.size digits
  | none => some app.toNat

theorem appDigits?_details (app pc : Nat) :
    appDigits? false (details app pc) = some (Decimal.chars app) := by
  have hnamed : after? "app=" (details app pc) =
      some (Decimal.chars app ++ (", pc=".toList ++ Decimal.chars pc)) :=
    after?_append "app=" _
  have hdigits : digits? (Decimal.chars app ++ (", pc=".toList ++ Decimal.chars pc)) =
      some (Decimal.chars app) :=
    (digits?_append_cons (by decide) _ _).trans (digits?_chars app)
  have hcons : details app pc = 'a' :: (details app pc).tail := rfl
  rw [hcons, appDigits?, ← hcons, hnamed, Option.bind_some, hdigits]
  rfl

theorem appDigits?_report (hid : IsId id) (message : List Char) (app pc : Nat) :
    appDigits? false (report id message app pc) =
      (appDigits? false message).or (some (Decimal.chars app)) := by
  have hlast : (id ++ ": logic eval error: ".toList).getLast? = some ' ' := by
    rw [List.getLast?_append_of_ne_nil _ (by decide)]
    decide
  have hnone : '=' ∉ id ++ ": logic eval error: ".toList := by
    rw [List.mem_append, not_or]
    refine ⟨fun hmem => ?_, by decide⟩
    exact absurd (List.all_eq_true.mp hid.2 _ hmem) (by decide)
  have hstop : ". Details: ".toList = '.' :: " Details: ".toList := by decide
  have hbegin : appDigits? false (report id message app pc) =
      appDigits? false (id ++ (": logic eval error: ".toList ++
        (message ++ (". Details: ".toList ++ details app pc)))) :=
    appDigits?_skip (by decide) (by decide) _
  have hend : appDigits? false (" Details: ".toList ++ details app pc) = some (Decimal.chars app) :=
    (appDigits?_skip (by decide) (by decide) _).trans (appDigits?_details app pc)
  rw [hbegin, ← List.append_assoc, appDigits?_skip hlast hnone, hstop, List.cons_append,
    appDigits?_stop, hend]

theorem isId_idText (d : Digest) : IsId (Transaction.idText d).toList := by
  have htext : (Transaction.idText d).toList = Base32.encodeFrom 0 0 d.bytes :=
    String.toList_ofList
  have hread := (Base32.decodeFrom_encodeFrom d.bytes).1
  refine ⟨?_, List.all_eq_true.mpr fun c hc => ?_⟩
  · rw [htext, Base32.length_encodeFrom _ (by decide), d.length_bytes]
    rfl
  · have hvalue := Base32.isSome_value?_of_decodeFrom hread c (htext ▸ hc)
    simp only [Base32.value?] at hvalue
    split at hvalue
    · next hletter => simp [isIdChar, hletter]
    · split at hvalue
      · next hdigit => simp [isIdChar, hdigit]
      · exact absurd hvalue Bool.false_ne_true

/-! ## The words of a ledger -/

/-- How a ledger refuses a group in which the program of an application refuses a call. -/
def refusal (id message : String) (app : UInt64) (pc : Nat) : GroupRejection :=
  .member id (.call (.program message app pc))

theorem toList_refusal (id message : String) (app : UInt64) (pc : Nat) :
    (refusal id message app pc).message.toList = report id.toList message.toList app.toNat pc := by
  have htext (s : String) : toString s = s := rfl
  have herror : ": logic eval error: ".toList = ": ".toList ++ "logic eval error: ".toList := by
    decide
  have hdetails : ". Details: app=".toList = ". Details: ".toList ++ "app=".toList := by decide
  unfold refusal GroupRejection.message MemberRejection.message CallFailure.message report details
  dsimp only
  simp only [String.toList_append, htext, herror, hdetails, List.append_assoc,
    Decimal.toList_toString]

variable {text message : String} {id : String} {app : UInt64} {pc : Nat}

theorem ofText?_of_report
    (hfirst : first? parts? text.toList =
      first? parts? (report id.toList message.toList app.toNat pc))
    (happ : appDigits? false text.toList =
      appDigits? false (report id.toList message.toList app.toNat pc))
    (hid : IsId id.toList) (hmessage : '\n' ∉ message.toList) (hpc : pc < UInt64.size) :
    ofText? text = some { transaction := id, message, pc, app := firstNamed message app } := by
  have hnamed : ((appDigits? false message.toList).or (some (Decimal.chars app.toNat))).bind
      (Decimal.readBelow? UInt64.size) = firstNamed message app := by
    rw [firstNamed]
    cases appDigits? false message.toList with
    | some digits => rfl
    | none => exact Decimal.readBelow?_chars app.toNat_lt
  rw [first?_report hid hmessage] at hfirst
  rw [appDigits?_report hid] at happ
  unfold ofText?
  simp only [hfirst, happ, Option.bind_eq_bind, Option.bind_some, Decimal.readBelow?_chars hpc,
    hnamed, String.ofList_toList]
  rfl

/-- A refusal is read as it was meant, in the words of a simulation and in those of a submission,
except for the application. -/
theorem ofText?_refusal (hid : IsId id.toList) (hmessage : '\n' ∉ message.toList)
    (hpc : pc < UInt64.size) :
    let read : Report := { transaction := id, message, pc, app := firstNamed message app }
    ofText? (refusal id message app pc).message = some read ∧
      ofText? s!"TransactionPool.Remember: {(refusal id message app pc).message}" = some read := by
  have htext := toList_refusal id message app pc
  have hsubmitted : s!"TransactionPool.Remember: {(refusal id message app pc).message}".toList =
      "TransactionPool.Remember: ".toList ++ report id.toList message.toList app.toNat pc := by
    rw [← htext]
    exact String.toList_append
  refine ⟨ofText?_of_report (by rw [htext]) (by rw [htext]) hid hmessage hpc,
    ofText?_of_report ?_ ?_ hid hmessage hpc⟩
  · rw [hsubmitted]
    rfl
  · rw [hsubmitted]
    exact appDigits?_skip (by decide) (by decide) _

end AppLedger.LogicError.Report
