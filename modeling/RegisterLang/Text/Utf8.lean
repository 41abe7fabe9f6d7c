import RegisterLang.Bytes

/-!
# UTF-8

Texts as bytes. `Text.ofUtf8?` is strict: it refuses overlong forms, surrogates and code points past
the last one.
-/

namespace RegisterLang.Text

/-- The UTF-8 form of a text. -/
def utf8 (text : String) : Bytes := text.toUTF8.data.toList

/-- The text with the given UTF-8 form. -/
def ofUtf8? (bytes : Bytes) : Option String := String.fromUTF8? ⟨bytes.toArray⟩

end RegisterLang.Text
