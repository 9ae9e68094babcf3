import Wallow.Lib.Placeholders
import Wallow.Storage.FileNames

/-!
# Rendering a template

`SimpleEmailTemplateService.RenderTemplate` replaces the placeholder of the application name and
then those of the model's properties, one after the other, and removes the placeholders that are
left.
-/

namespace Wallow.Notifications

open Placeholders
open Storage (Text text isHighSurrogate isLowSurrogate)

namespace WebUtility

/-- A numeric character reference. -/
def reference (scalarValue : Nat) : Text :=
  text "&#" ++ text (toString scalarValue) ++ text ";"

/-- One unit that is not the half of a pair. -/
def htmlEncodeUnit (c : UInt16) : Text :=
  if c = 0x3C then text "&lt;"
  else if c = 0x3E then text "&gt;"
  else if c = 0x22 then text "&quot;"
  else if c = 0x27 then text "&#39;"
  else if c = 0x26 then text "&amp;"
  else if 0xA0 ≤ c && c ≤ 0xFF then reference c.toNat
  -- the replacement character stands for a surrogate alone
  else if isHighSurrogate c || isLowSurrogate c then [0xFFFD]
  else [c]

def htmlEncode : Text → Text
  | [] => []
  | [c] => htmlEncodeUnit c
  | c :: d :: rest =>
    if isHighSurrogate c && isLowSurrogate d then
      reference ((c.toNat - 0xD800) * 0x400 + (d.toNat - 0xDC00) + 0x10000) ++ htmlEncode rest
    else htmlEncodeUnit c ++ htmlEncode (d :: rest)

end WebUtility

/-- `[A-Za-z0-9_]`. -/
def isWordUnit (c : UInt16) : Bool :=
  (0x41 ≤ c && c ≤ 0x5A) || (0x61 ≤ c && c ≤ 0x7A) || (0x30 ≤ c && c ≤ 0x39) || c = 0x5F

def braces : Signs UInt16 where
  opening := 0x7B
  closing := 0x7D
  isWord := isWordUnit
  opening_not_word := by decide
  opening_ne_closing := by decide
  closing_not_word := by decide

/-- A property of the model, its value converted to a string.  The models are records of the source,
whose properties are named by words of `[A-Za-z0-9_]`. -/
structure PropertyInfo where
  name : Text
  isName : braces.IsName name
  value : Text

structure SimpleEmailTemplateService where
  appName : Text

namespace SimpleEmailTemplateService

def APP_NAME : Text := text "AppName"

variable (service : SimpleEmailTemplateService) (template : Text) (model : List PropertyInfo)

/-- `RenderTemplate` before it removes what is left. -/
def replaceValues : Text :=
  -- the application name comes before the properties, and is not encoded
  let result := replace (spell braces APP_NAME) service.appName template
  model.foldl (fun result property =>
    replace (spell braces property.name) (WebUtility.htmlEncode property.value) result) result

def renderTemplate : Text :=
  sweep braces (service.replaceValues template model)

/-- The texts for the placeholders. -/
def values : List (Text × Text) :=
  (APP_NAME, service.appName) ::
    model.map fun property => (property.name, WebUtility.htmlEncode property.value)

/-- Nothing but the placeholders of the template is replaced, and nothing but those of them that
have no text is removed. -/
structure RendersAtOnce : Prop where
  replaced : service.replaceValues template model =
    substitute braces (service.values model) template
  rendered : service.renderTemplate template model =
    substituteAll braces (service.values model) template

variable {service template model}

theorem replaceValues_eq : service.replaceValues template model =
    replaceAll braces (service.values model) template := by
  unfold replaceValues values replaceAll
  rw [List.foldl_cons, List.foldl_map]

theorem isName_APP_NAME : braces.IsName APP_NAME :=
  .of_all (by decide) (by decide)

theorem isName_of_mem_values : ∀ entry ∈ service.values model, braces.IsName entry.1 := by
  intro entry hentry
  cases List.mem_cons.mp hentry with
  | inl heq =>
    rw [heq]
    exact isName_APP_NAME
  | inr hproperty =>
    have ⟨property, _, heq⟩ := List.mem_map.mp hproperty
    exact heq ▸ property.isName

/-- A template is rendered as all its placeholders at once exactly when, with the values put in, it
has no placeholders but those of its own that have no value. -/
theorem rendersAtOnce_iff (service : SimpleEmailTemplateService) (template : Text)
    (model : List PropertyInfo) : service.RendersAtOnce template model ↔
      Settles braces (service.values model) template := by
  rw [← sequential_iff isName_of_mem_values, ← replaceValues_eq]
  exact ⟨fun h => ⟨h.replaced, h.rendered⟩, fun h => ⟨h.1, h.2⟩⟩

def FIRST_NAME : Text := text "FirstName"

def LAST_NAME : Text := text "LastName"

def greeting : Text :=
  text "Hi " ++ spell braces FIRST_NAME ++ text " " ++ spell braces LAST_NAME

/-- Somebody whose first name is a placeholder. -/
def sampleModel : List PropertyInfo :=
  [⟨FIRST_NAME, .of_all (by decide) (by decide), spell braces LAST_NAME⟩,
    ⟨LAST_NAME, .of_all (by decide) (by decide), text "Doe"⟩]

/-- The last name is put in the first name as well. -/
theorem value_is_taken_for_a_placeholder :
    SimpleEmailTemplateService.renderTemplate ⟨text "Wallow"⟩ greeting sampleModel =
      text "Hi Doe Doe" ∧
    ¬RendersAtOnce ⟨text "Wallow"⟩ greeting sampleModel := by
  have hresult : SimpleEmailTemplateService.renderTemplate ⟨text "Wallow"⟩ greeting sampleModel =
      text "Hi Doe Doe" := by decide +kernel
  refine ⟨hresult, fun h => ?_⟩
  have hrendered := h.rendered
  rw [hresult] at hrendered
  exact absurd hrendered (by decide +kernel)

end SimpleEmailTemplateService

end Wallow.Notifications
