import DelayedOrderSms.Python.Str
import DelayedOrderSms.Python.Json

/-!
# `template_renderer.py`

Placeholders of the form `{{name}}` are replaced one name after the other, in the order of the
context.
-/

namespace OrderSimulator

open Python

def renderTemplateValue (value : String) (context : Dict String String) : String :=
  context.foldl
    (fun rendered entry => replace rendered (r"{{" ++ entry.1 ++ r"}}") entry.2) value

/-- Renders the strings of a payload; keys are left alone. -/
def renderTemplate (payload : Json) (context : Dict String String) : Json :=
  Id.run (payload.mapStrings fun s => pure (renderTemplateValue s context))

end OrderSimulator
