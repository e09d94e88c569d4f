import StylePrune.Text.Basic

/-!
# Element names of HTML

The names of the elements of HTML, obsolete ones included. They are looked for in every content, in
addition to the tags a stylesheet selects on.
-/

namespace StylePrune

/-- The names of the elements of HTML in the order of their code points. -/
def htmlElements : List Text :=
  ["a", "abbr", "acronym", "address", "applet", "area", "article", "aside", "audio", "b", "base",
    "basefont", "bdi", "bdo", "bgsound", "big", "blink", "blockquote", "body", "br", "button",
    "canvas", "caption", "center", "cite", "code", "col", "colgroup", "command", "content", "data",
    "datalist", "dd", "del", "details", "dfn", "dialog", "dir", "div", "dl", "dt", "element", "em",
    "embed", "fieldset", "figcaption", "figure", "font", "footer", "form", "frame", "frameset",
    "h1", "h2", "h3", "h4", "h5", "h6", "head", "header", "hgroup", "hr", "html", "i", "iframe",
    "image", "img", "input", "ins", "isindex", "kbd", "keygen", "label", "legend", "li", "link",
    "listing", "main", "map", "mark", "marquee", "menu", "menuitem", "meta", "meter", "multicol",
    "nav", "nobr", "noembed", "noframes", "noscript", "object", "ol", "optgroup", "option",
    "output", "p", "param", "picture", "plaintext", "pre", "progress", "q", "rp", "rt", "rtc",
    "ruby", "s", "samp", "script", "section", "select", "shadow", "small", "source", "spacer",
    "span", "strike", "strong", "style", "sub", "summary", "sup", "table", "tbody", "td",
    "template", "textarea", "tfoot", "th", "thead", "time", "title", "tr", "track", "tt", "u",
    "ul", "var", "video", "wbr", "xmp"].map String.toList

end StylePrune
