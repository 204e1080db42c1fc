import Kouetsu.Entries
import Kouetsu.File.Path
/-!
# Languages of files

The language of a file by its name or the end of its name.
-/

namespace Kouetsu

def namedLanguages : Entries String String :=
  [("Dockerfile", "dockerfile"), ("Makefile", "makefile"), ("makefile", "makefile")]

def suffixLanguages : Entries String String :=
  [(".md", "markdown"), (".markdown", "markdown"), (".mdx", "markdown"), (".txt", "plaintext"),
    (".text", "plaintext"), (".c", "c"), (".h", "c"), (".cc", "cpp"), (".cpp", "cpp"),
    (".cxx", "cpp"), (".hpp", "cpp"), (".cs", "csharp"), (".java", "java"), (".go", "go"),
    (".kt", "kotlin"), (".swift", "swift"), (".scala", "scala"), (".dart", "dart"),
    (".js", "javascript"), (".mjs", "javascript"), (".cjs", "javascript"),
    (".jsx", "javascriptreact"), (".ts", "typescript"), (".tsx", "typescriptreact"),
    (".py", "python"), (".pyi", "python"), (".rs", "rust"), (".sh", "shellscript"),
    (".bash", "shellscript"), (".zsh", "shellscript"), (".rb", "ruby"), (".yaml", "yaml"),
    (".yml", "yaml"), (".toml", "toml"), (".pl", "perl"), (".r", "r"), (".ps1", "powershell"),
    (".ex", "elixir"), (".exs", "elixir")]

def Path.language (p : Path) : String :=
  match p.name.string?.bind namedLanguages.get? with
  | some language => language
  | none => (p.lowerSuffix?.bind suffixLanguages.get?).getD ""

end Kouetsu
