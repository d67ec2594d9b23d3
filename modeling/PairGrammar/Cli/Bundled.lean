import PairGrammar.Files.Tree

/-!
# Bundled files

The default configuration and the starter rule file, line by line, and the folders that they lie in.
-/

namespace PairGrammar.Cli

def configurationLines : List String := [
  "# Default configuration of the Iskierka command line interface.",
  "#",
  "# Each table below `defaults` configures the default values of command line",
  "# options of one command; `default` applies to all commands. Copy this file to",
  "# `./.iskierkarc` or `~/.iskierkarc` to override values.",
  "",
  "[[defaults.default]]",
  "\"--log-level\" = \"WARNING\"",
  "",
  "[[defaults.generate]]",
  "\"--num-pairs\" = 10",
  "\"--level-limit\" = 2048",
  "\"--format\" = \"text\"",
  "",
  "[[defaults.create]]",
  "\"--output-dir\" = \".\"",
  "\"--base-name\" = \"output\""]

def starterLines : List String := [
  "This is a starter Iskierka rule file. Lines outside of hash expressions are",
  "comments. Every hash expression consists of three lines: a header with the",
  "variable name (and an optional weight), a natural language line, and a code line.",
  "Generation starts at the variable \"output\".",
  "",
  "#output weight 6",
  "I want to buy _ticketsNumber _kind tickets",
  "buy(tickets=_ticketsNumber, kind=\"_kind\")",
  "",
  "#output weight 3",
  "book _ticketsNumber seats _politely",
  "reserve(_ticketsNumber)",
  "",
  "#ticketsNumber",
  "one",
  "1",
  "",
  "#ticketsNumber",
  "two",
  "2",
  "",
  "#ticketsNumber",
  "three",
  "3",
  "",
  "#ticketsNumber",
  "four",
  "4",
  "",
  "#kind",
  "regular",
  "regular",
  "",
  "#kind",
  "##empty",
  "standard",
  "",
  "#politely",
  "please",
  "##empty",
  "",
  "#politely",
  "##empty",
  "##empty"]

def written (lines : List String) : String := String.join (lines.map (· ++ "\n"))

def configuration : String := written configurationLines

def starter : String := written starterLines

/-- The name of the folder that holds everything bundled. -/
def bundleName : String := "iskierka"

def bundle : FileTree where
  nodes := [
    ([bundleName], .folder),
    ([bundleName, "resources"], .folder),
    ([bundleName, "resources", ".iskierkarc"], .file configuration.toUTF8),
    ([bundleName, "resources", "stubs"], .folder),
    ([bundleName, "resources", "stubs", "rules.iski"], .file starter.toUTF8)]

/-- The text of a bundled file. -/
def bundled (path : String) : Except PathTrouble String :=
  (bundle.bytes (Path.joined bundleName (Path.ofString path).string)).map fun b =>
    (String.fromUTF8? b).getD ""

end PairGrammar.Cli
