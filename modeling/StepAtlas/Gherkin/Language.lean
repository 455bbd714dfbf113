import StepAtlas.Text.Basic

/-
The languages that feature files are written in.  A language gives the words that start a title line
and the words that start a step; a step word includes the blank behind it where the language writes
one.  A file is in English unless it names a language, and which other languages there are is for
the user of this library to say.
-/

namespace StepAtlas
namespace Gherkin

structure Language where
  /-- The name that a file asks for it by. -/
  name : Text
  feature : List Text
  background : List Text
  rule : List Text
  /-- The words for scenarios and for scenario outlines. -/
  scenario : List Text
  examples : List Text
  /-- The words for steps apart from the star. -/
  words : List Text
deriving DecidableEq, Repr

namespace Language

/-- All words that start a step; the star does in every language. -/
def steps (l : Language) : List Text := "* " :: l.words

def english : Language where
  name := "en"
  feature := ["Feature", "Business Need", "Ability"]
  background := ["Background"]
  rule := ["Rule"]
  scenario := ["Example", "Scenario", "Scenario Outline", "Scenario Template"]
  examples := ["Examples", "Scenarios"]
  words := ["Given ", "When ", "Then ", "And ", "But "]

def french : Language where
  name := "fr"
  feature := ["Fonctionnalité"]
  background := ["Contexte"]
  rule := ["Règle"]
  scenario := ["Exemple", "Scénario", "Plan du scénario", "Plan du Scénario"]
  examples := ["Exemples"]
  words := ["Soit ", "Sachant que ", "Sachant qu'", "Sachant ", "Etant donné que ",
    "Etant donné qu'", "Etant donné ", "Etant donnée ", "Etant donnés ", "Etant données ",
    "Étant donné que ", "Étant donné qu'", "Étant donné ", "Étant donnée ", "Étant donnés ",
    "Étant données ", "Quand ", "Lorsque ", "Lorsqu'", "Alors ", "Donc ", "Et que ", "Et qu'",
    "Et ", "Mais que ", "Mais qu'", "Mais "]

def german : Language where
  name := "de"
  feature := ["Funktionalität", "Funktion"]
  background := ["Grundlage", "Hintergrund", "Voraussetzungen", "Vorbedingungen"]
  rule := ["Rule", "Regel"]
  scenario := ["Beispiel", "Szenario", "Szenariogrundriss", "Szenarien"]
  examples := ["Beispiele"]
  words := ["Angenommen ", "Gegeben sei ", "Gegeben seien ", "Wenn ", "Dann ", "Und ", "Aber "]

def spanish : Language where
  name := "es"
  feature := ["Característica", "Necesidad del negocio", "Requisito"]
  background := ["Antecedentes"]
  rule := ["Regla", "Regla de negocio"]
  scenario := ["Ejemplo", "Escenario", "Esquema del escenario"]
  examples := ["Ejemplos"]
  words := ["Dado ", "Dada ", "Dados ", "Dadas ", "Cuando ", "Entonces ", "Y ", "E ", "Pero "]

def japanese : Language where
  name := "ja"
  feature := ["フィーチャ", "機能"]
  background := ["背景"]
  rule := ["ルール"]
  scenario := ["シナリオ", "シナリオアウトライン", "シナリオテンプレート", "テンプレ", "シナリオテンプレ"]
  examples := ["例", "サンプル"]
  words := ["前提", "もし", "ならば", "且つ", "かつ", "然し", "しかし", "但し", "ただし"]

def chinese : Language where
  name := "zh-CN"
  feature := ["功能"]
  background := ["背景"]
  rule := ["Rule", "规则"]
  scenario := ["场景", "剧本", "场景大纲", "剧本大纲"]
  examples := ["例子"]
  words := ["假如", "假设", "假定", "当", "那么", "而且", "并且", "同时", "但是"]

def russian : Language where
  name := "ru"
  feature := ["Функция", "Функциональность", "Функционал", "Свойство", "Фича"]
  background := ["Предыстория", "Контекст"]
  rule := ["Правило"]
  scenario := ["Пример", "Сценарий", "Структура сценария", "Шаблон сценария"]
  examples := ["Примеры", "Значения"]
  words := ["Допустим ", "Дано ", "Пусть ", "Когда ", "Если ", "То ", "Затем ", "Тогда ", "И ",
    "К тому же ", "Также ", "Но ", "А ", "Иначе "]

def haitian : Language where
  name := "ht"
  feature := ["Karakteristik", "Mak", "Fonksyonalite"]
  background := ["Kontèks", "Istorik"]
  rule := ["Rule"]
  scenario :=
    ["Senaryo", "Plan senaryo", "Plan Senaryo", "Senaryo deskripsyon", "Senaryo Deskripsyon",
      "Dyagram senaryo", "Dyagram Senaryo"]
  examples := ["Egzanp"]
  words := ["Sipoze ", "Sipoze ke ", "Sipoze Ke ", "Lè ", "Le ", "Lè sa a ", "Le sa a ", "Ak ",
    "Epi ", "E ", "Men "]

def australian : Language where
  name := "en-au"
  feature := ["Pretty much"]
  background := ["First off"]
  rule := ["Rule"]
  scenario := ["Awww, look mate", "Reckon it's like"]
  examples := ["You'll wanna"]
  words := ["Y'know ", "It's just unbelievable ", "But at the end of the day I reckon ",
    "Too right ", "Yeah nah "]

def lolcat : Language where
  name := "en-lol"
  feature := ["OH HAI"]
  background := ["B4"]
  rule := ["Rule"]
  scenario := ["MISHUN", "MISHUN SRSLY"]
  examples := ["EXAMPLZ"]
  words := ["I CAN HAZ ", "WEN ", "DEN ", "AN ", "BUT "]

def pirate : Language where
  name := "en-pirate"
  feature := ["Ahoy matey!"]
  background := ["Yo-ho-ho"]
  rule := ["Rule"]
  scenario := ["Heave to", "Shiver me timbers"]
  examples := ["Dead men tell no tales"]
  words := ["Gangway! ", "Blimey! ", "Let go and haul ", "Aye ", "Avast! "]

def common : List Language :=
  [french, german, spanish, japanese, chinese, russian, haitian, australian, lolcat, pirate]

def table (others : List Language) : List Language := english :: others

def named? (languages : List Language) (name : Text) : Option Language :=
  languages.find? (·.name = name)

end Language
end Gherkin
end StepAtlas
